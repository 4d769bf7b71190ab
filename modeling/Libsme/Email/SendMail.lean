import Libsme.Email.ReplyCode
import Libsme.Library.Traced

/-! send_mail of smtpfuncs.cpp. The outcomes of the socket calls are given; what is sent
and what comes back are logged, and so is a command that overruns its buffer. -/
namespace Libsme.Email
open Memory (cstr)
open Semantics.Rfc4648 (ascii)

inductive Stage where
  | mail
  | rcpt
  | data
  | header
  | body
  | terminator
  | quit
deriving DecidableEq

/-- How the socket calls turn out: whether connect_to_server, each send and close succeed,
and what each recv stores, which is nothing after an error or the end of the connection.
`behind` is the stack behind the buffer of send_command. -/
structure Outcomes where
  connected : Bool
  sent : Stage → Bool
  reply : Stage → List UInt8
  behind : Stage → List UInt8
  closed : Bool
  fits : ∀ stage, (reply stage).length ≤ bufsize

structure Mail where
  sender : List UInt8
  recipient : List UInt8
  subject : List UInt8
  replyto : List UInt8
  msg : List UInt8
  date : List UInt8

inductive Event where
  | send (stage : Stage) (block : List UInt8)
  | reply (stage : Stage) (block : List UInt8)
  | overrun

def Outcomes.exchange (outcomes : Outcomes) (stage : Stage) (opening cmd suffix : List UInt8) (retCode : Nat) :
    Exchange where
  opening := opening
  cmd := cmd
  suffix := suffix
  retCode := retCode
  behind := outcomes.behind stage
  sent := outcomes.sent stage
  reply := outcomes.reply stage
  fits := outcomes.fits stage

/-- send_command; after an overrun nothing is known of the session. -/
def sendCommand (outcomes : Outcomes) (stage : Stage) (opening cmd suffix : List UInt8) (retCode : Nat) :
    Traced Event Bool :=
  let exchange := outcomes.exchange stage opening cmd suffix retCode
  match exchange.command with
  | none => do
    Traced.emit .overrun
    pure false
  | some buf => do
    Traced.emit (.send stage (cstr buf))
    if outcomes.sent stage then do
      Traced.emit (.reply stage (outcomes.reply stage))
      pure (exchange.found buf)
    else pure false

def mailAgent : List UInt8 := ascii "Mayukh's SMTP code (http://www.mayukhbose.com/freebies/c-code.php)"

def messageHeader (mail : Mail) : List UInt8 :=
  (ascii "Date: " ++ cstr mail.date ++ ascii "\r\nFrom: " ++ cstr mail.sender ++ ascii "\r\nTo: " ++ cstr mail.recipient ++
    ascii "\r\nSubject: " ++ cstr mail.subject ++ ascii "\r\nX-Mailer: " ++ mailAgent ++
    ascii "\r\nReply-To: " ++ cstr mail.replyto ++ ascii "\r\n\r\n").take (bufsize-1)

/-- The reply to the terminator is read and not looked at. -/
def sendMailMessage (outcomes : Outcomes) (mail : Mail) : Traced Event Bool := do
  Traced.emit (.send .header (messageHeader mail))
  if outcomes.sent .header then do
    Traced.emit (.send .body (cstr mail.msg))
    if outcomes.sent .body then do
      Traced.emit (.send .terminator (ascii "\r\n.\r\n"))
      if outcomes.sent .terminator then do
        Traced.emit (.reply .terminator (outcomes.reply .terminator))
        pure true
      else pure false
    else pure false
  else pure false

def error : Int := -1
def noSocketConn : Int := -1
def protocolError : Int := -2

/-- if (n_retval == 0 && step == ERROR) n_retval = E_PROTOCOL_ERROR; -/
def guarded (retval : Int) (step : Traced Event Bool) : Traced Event Int :=
  if retval = 0 then do
    let success ← step
    pure (if success then retval else protocolError)
  else pure retval

def sendMail (outcomes : Outcomes) (mail : Mail) : Traced Event Int := do
  let retval := if outcomes.connected then 0 else noSocketConn
  let retval ← guarded retval
    (sendCommand outcomes .mail (ascii "MAIL From:<") mail.sender (ascii ">\r\n") mailOk)
  let retval ← guarded retval (sendCommand outcomes .rcpt (ascii "RCPT To:<") mail.recipient (ascii ">\r\n") mailOk)
  let retval ← guarded retval (sendCommand outcomes .data [] (ascii "DATA") (ascii "\r\n") mailGoAhead)
  let retval ← guarded retval (sendMailMessage outcomes mail)
  let retval ← guarded retval (sendCommand outcomes .quit [] (ascii "QUIT") (ascii "\r\n") mailGoodbye)
  pure (if outcomes.closed then retval else error)

def successCode : Stage → Nat
  | .data => mailGoAhead
  | .quit => mailGoodbye
  | _ => mailOk

/-- The reply is the success code and what follows it. -/
def Accepts (stage : Stage) (block : List UInt8) : Prop := codeText (successCode stage) <+: block

def Outcomes.Accepted (outcomes : Outcomes) (stage : Stage) : Prop := Accepts stage (outcomes.reply stage)

def Event.Sends : Event → Prop
  | .send _ _ => True
  | _ => False

def Event.Refuses : Event → Prop
  | .reply stage block => ¬Accepts stage block
  | _ => False

def Stops (log : List Event) : Prop := log.Pairwise fun earlier later => earlier.Refuses → ¬later.Sends

structure Truthful (outcomes : Outcomes) (mail : Mail) : Prop where
  success : (sendMail outcomes mail).value = 0 → outcomes.connected = true ∧ outcomes.Accepted .mail ∧
    outcomes.Accepted .rcpt ∧ outcomes.Accepted .data ∧ outcomes.Accepted .terminator ∧ outcomes.Accepted .quit
  stops : Stops (sendMail outcomes mail).log
  defined : .overrun ∉ (sendMail outcomes mail).log

/-- As far as the session gets, the addresses have room in the buffer and each reply in which
the code is heard starts with it; so does the reply to the terminator in any case. -/
def RightlyRead (outcomes : Outcomes) (mail : Mail) : Prop :=
  let mailCommand := outcomes.exchange .mail (ascii "MAIL From:<") mail.sender (ascii ">\r\n") mailOk
  let rcptCommand := outcomes.exchange .rcpt (ascii "RCPT To:<") mail.recipient (ascii ">\r\n") mailOk
  let dataCommand := outcomes.exchange .data [] (ascii "DATA") (ascii "\r\n") mailGoAhead
  let quitCommand := outcomes.exchange .quit [] (ascii "QUIT") (ascii "\r\n") mailGoodbye
  outcomes.connected = true → mailCommand.Fits ∧ (mailCommand.Passes →
  outcomes.Accepted .mail ∧ rcptCommand.Fits ∧ (rcptCommand.Passes →
  outcomes.Accepted .rcpt ∧ (dataCommand.Passes →
  outcomes.Accepted .data ∧ (outcomes.sent .header = true → outcomes.sent .body = true →
  outcomes.sent .terminator = true →
  outcomes.Accepted .terminator ∧ (quitCommand.Passes →
  outcomes.closed = true → outcomes.Accepted .quit)))))

def attempt (step : Traced Event Bool) (rest failed : Traced Event Int) : Traced Event Int := do
  let success ← step
  if success then rest else failed

theorem guarded_attempt (step : Traced Event Bool) (next : Int → Traced Event Int) :
    (guarded 0 step >>= next) = attempt step (next 0) (next protocolError) := by
  obtain ⟨success,log⟩ := step
  cases success with
  | true => ext1 <;> simp [guarded,attempt]
  | false => ext1 <;> simp [guarded,attempt]

theorem guarded_failed {retval : Int} (failed : retval ≠ 0) (step : Traced Event Bool)
    (next : Int → Traced Event Int) : (guarded retval step >>= next) = next retval := by
  rw [guarded,if_neg failed]
  ext1 <;> simp

structure Sound (accepted : Prop) (session : Traced Event Int) : Prop where
  success : session.value = 0 → accepted
  stops : Stops session.log
  defined : .overrun ∉ session.log

/-- The session goes on with a transmission, or with an overrun in its place. -/
def Opens (session : Traced Event Int) : Prop :=
  ∃ event log, session.log = event::log ∧ (event.Sends ∨ event = .overrun)

theorem stops_send {stage : Stage} {block : List UInt8} {log : List Event} :
    Stops (.send stage block::log) ↔ Stops log := by
  simp [Stops,Event.Refuses]

theorem sound_send {accepted : Prop} {stage : Stage} {block : List UInt8} {value : Int} {log : List Event} :
    Sound accepted ⟨value,.send stage block::log⟩ ↔ Sound accepted ⟨value,log⟩ := by
  constructor
  · rintro ⟨success,stops,defined⟩
    exact ⟨success,stops_send.mp stops,fun member => defined (List.mem_cons_of_mem _ member)⟩
  · rintro ⟨success,stops,defined⟩
    exact ⟨success,stops_send.mpr stops,by simpa using defined⟩

theorem stops_reply {stage : Stage} {block : List UInt8} {log : List Event} :
    Stops (.reply stage block::log) ↔ (¬Accepts stage block → ∀ event ∈ log, ¬event.Sends) ∧ Stops log := by
  simp only [Stops,List.pairwise_cons,Event.Refuses]
  refine and_congr ?_ Iff.rfl
  exact ⟨fun quiet refused event member => quiet event member refused,
    fun quiet event member refused => quiet refused event member⟩

theorem stops_nil : Stops [] := List.Pairwise.nil

/-- A reply with another transmission after it has to accept. -/
theorem stops_opened {stage : Stage} {block : List UInt8} {session : Traced Event Int} (opens : Opens session)
    (defined : .overrun ∉ session.log) :
    Stops (.reply stage block::session.log) ↔ Accepts stage block ∧ Stops session.log := by
  obtain ⟨event,log,same,sends | overruns⟩ := opens
  · rw [stops_reply]
    refine and_congr_left fun _ => ⟨?_,fun accepts refused => absurd accepts refused⟩
    intro quiet
    by_contra refused
    exact quiet refused event (same ▸ List.mem_cons_self) sends
  · exact absurd (by rw [same,overruns]; exact List.mem_cons_self) defined

section Chain
variable {outcomes : Outcomes} {accepted : Prop} {rest failed : Traced Event Int}

theorem sound_failed {session : Traced Event Int} (fails : session.value ≠ 0) (stops : Stops session.log)
    (defined : .overrun ∉ session.log) : Sound accepted session := ⟨fun zero => absurd zero fails,stops,defined⟩

theorem sound_reply {stage : Stage} (opens : Opens rest) :
    Sound (outcomes.Accepted stage ∧ accepted) ⟨rest.value,.reply stage (outcomes.reply stage)::rest.log⟩ ↔
      outcomes.Accepted stage ∧ Sound accepted rest := by
  constructor
  · rintro ⟨success,stops,defined⟩
    have later : .overrun ∉ rest.log := fun member => defined (List.mem_cons_of_mem _ member)
    obtain ⟨accepts,stops⟩ := (stops_opened opens later).mp stops
    exact ⟨accepts,fun zero => (success zero).2,stops,later⟩
  · rintro ⟨accepts,success,stops,defined⟩
    exact ⟨fun zero => ⟨accepts,success zero⟩,(stops_opened opens defined).mpr ⟨accepts,stops⟩,by simpa using defined⟩

theorem sound_last {stage : Stage} (ended : rest.log = []) :
    Sound (outcomes.Accepted stage) ⟨rest.value,.reply stage (outcomes.reply stage)::rest.log⟩ ↔
      (rest.value = 0 → outcomes.Accepted stage) := by
  refine ⟨Sound.success,fun right => ⟨right,?_,by simp [ended]⟩⟩
  rw [stops_reply,ended]
  exact ⟨fun _ _ member => absurd member List.not_mem_nil,stops_nil⟩

variable {stage : Stage} {opening cmd suffix : List UInt8} {retCode : Nat}

theorem command_overrun (long : ¬(outcomes.exchange stage opening cmd suffix retCode).Fits) :
    attempt (sendCommand outcomes stage opening cmd suffix retCode) rest failed =
      ⟨failed.value,.overrun::failed.log⟩ := by
  have none := Exchange.command_of_not_fits _ long
  ext1 <;> simp [attempt,sendCommand,none]

theorem command_unsent (fits : (outcomes.exchange stage opening cmd suffix retCode).Fits)
    (unsent : outcomes.sent stage ≠ true) :
    attempt (sendCommand outcomes stage opening cmd suffix retCode) rest failed =
      ⟨failed.value,.send stage (cstr (filled (outcomes.exchange stage opening cmd suffix retCode).commandText))::
        failed.log⟩ := by
  have runs := Exchange.command_of_fits _ fits
  ext1 <;> simp [attempt,sendCommand,runs,unsent]

theorem command_replied (fits : (outcomes.exchange stage opening cmd suffix retCode).Fits)
    (sent : outcomes.sent stage = true) :
    attempt (sendCommand outcomes stage opening cmd suffix retCode) rest failed =
      let exchange := outcomes.exchange stage opening cmd suffix retCode
      let next := if exchange.found (filled exchange.commandText) then rest else failed
      ⟨next.value,.send stage (cstr (filled exchange.commandText))::.reply stage (outcomes.reply stage)::next.log⟩ := by
  have runs := Exchange.command_of_fits _ fits
  ext1 <;> simp [attempt,sendCommand,runs,sent]

theorem command_opens : Opens (attempt (sendCommand outcomes stage opening cmd suffix retCode) rest failed) := by
  by_cases fits : (outcomes.exchange stage opening cmd suffix retCode).Fits
  · by_cases sent : outcomes.sent stage = true
    · rw [command_replied fits sent]
      exact ⟨_,_,rfl,Or.inl trivial⟩
    · rw [command_unsent fits sent]
      exact ⟨_,_,rfl,Or.inl trivial⟩
  · rw [command_overrun fits]
    exact ⟨_,_,rfl,Or.inr rfl⟩

/-- A command is sound where it fits and, if its reply passes, what comes then is. -/
theorem sound_sent (fails : failed.value ≠ 0) (silent : failed.log = []) :
    Sound accepted (attempt (sendCommand outcomes stage opening cmd suffix retCode) rest failed) ↔
      (outcomes.exchange stage opening cmd suffix retCode).Fits ∧
        ((outcomes.exchange stage opening cmd suffix retCode).Passes →
          Sound accepted ⟨rest.value,.reply stage (outcomes.reply stage)::rest.log⟩) := by
  set exchange := outcomes.exchange stage opening cmd suffix retCode
  have clean : Event.overrun ∉ failed.log := by simp [silent]
  by_cases fits : exchange.Fits
  · by_cases sent : outcomes.sent stage = true
    · have found : exchange.found (filled exchange.commandText) = true ↔ exchange.Passes :=
        (exchange.found_iff fits).trans ⟨fun heard => ⟨sent,heard⟩,And.right⟩
      rw [command_replied fits sent,sound_send]
      by_cases passes : exchange.Passes
      · rw [if_pos (found.mpr passes)]
        exact ⟨fun sound => ⟨fits,fun _ => sound⟩,fun right => right.2 passes⟩
      · rw [if_neg (fun yes => passes (found.mp yes))]
        refine ⟨fun _ => ⟨fits,fun now => absurd now passes⟩,fun _ => sound_failed fails ?_ (by simp [silent])⟩
        rw [stops_reply,silent]
        exact ⟨fun _ _ member => absurd member List.not_mem_nil,stops_nil⟩
    · rw [command_unsent fits sent,sound_send]
      refine ⟨fun _ => ⟨fits,fun passes => absurd passes.1 sent⟩,fun _ => sound_failed fails ?_ clean⟩
      rw [silent]
      exact stops_nil
  · rw [command_overrun fits]
    exact ⟨fun sound => absurd List.mem_cons_self sound.defined,fun right => absurd right.1 fits⟩

theorem sound_command (fails : failed.value ≠ 0) (silent : failed.log = []) (opens : Opens rest) :
    Sound (outcomes.Accepted stage ∧ accepted)
        (attempt (sendCommand outcomes stage opening cmd suffix retCode) rest failed) ↔
      (outcomes.exchange stage opening cmd suffix retCode).Fits ∧
        ((outcomes.exchange stage opening cmd suffix retCode).Passes →
          outcomes.Accepted stage ∧ Sound accepted rest) := by
  rw [sound_sent fails silent,sound_reply opens]

theorem sound_quit (fails : failed.value ≠ 0) (silent : failed.log = []) (ended : rest.log = []) :
    Sound (outcomes.Accepted stage)
        (attempt (sendCommand outcomes stage opening cmd suffix retCode) rest failed) ↔
      (outcomes.exchange stage opening cmd suffix retCode).Fits ∧
        ((outcomes.exchange stage opening cmd suffix retCode).Passes →
          rest.value = 0 → outcomes.Accepted stage) := by
  rw [sound_sent fails silent,sound_last ended]

variable {mail : Mail}

theorem message_opens : Opens (attempt (sendMailMessage outcomes mail) rest failed) := ⟨_,_,rfl,Or.inl trivial⟩

theorem sound_message (fails : failed.value ≠ 0) (silent : failed.log = []) (opens : Opens rest) :
    Sound (outcomes.Accepted .terminator ∧ accepted) (attempt (sendMailMessage outcomes mail) rest failed) ↔
      (outcomes.sent .header = true → outcomes.sent .body = true → outcomes.sent .terminator = true →
        outcomes.Accepted .terminator ∧ Sound accepted rest) := by
  by_cases header : outcomes.sent .header = true
  · by_cases body : outcomes.sent .body = true
    · by_cases terminator : outcomes.sent .terminator = true
      · have whole : attempt (sendMailMessage outcomes mail) rest failed = ⟨rest.value,
            .send .header (messageHeader mail)::.send .body (cstr mail.msg)::
              .send .terminator (ascii "\r\n.\r\n")::.reply .terminator (outcomes.reply .terminator)::rest.log⟩ := by
          ext1 <;> simp [attempt,sendMailMessage,header,body,terminator]
        rw [whole,sound_send,sound_send,sound_send,sound_reply opens]
        simp only [header,body,terminator,forall_const]
      · refine ⟨fun _ _ _ now => absurd now terminator,fun _ => sound_failed ?_ ?_ ?_⟩
        · simpa [attempt,sendMailMessage,header,body,terminator] using fails
        · simp [attempt,sendMailMessage,header,body,terminator,silent,stops_send,stops_nil]
        · simp [attempt,sendMailMessage,header,body,terminator,silent]
    · refine ⟨fun _ _ now => absurd now body,fun _ => sound_failed ?_ ?_ ?_⟩
      · simpa [attempt,sendMailMessage,header,body] using fails
      · simp [attempt,sendMailMessage,header,body,silent,stops_send,stops_nil]
      · simp [attempt,sendMailMessage,header,body,silent]
  · refine ⟨fun _ now => absurd now header,fun _ => sound_failed ?_ ?_ ?_⟩
    · simpa [attempt,sendMailMessage,header] using fails
    · simp [attempt,sendMailMessage,header,silent,stops_send,stops_nil]
    · simp [attempt,sendMailMessage,header,silent]

end Chain

def finish (outcomes : Outcomes) (retval : Int) : Traced Event Int :=
  pure (if outcomes.closed then retval else error)

theorem sendMail_chain {outcomes : Outcomes} (connected : outcomes.connected = true) (mail : Mail) :
    let failed := finish outcomes protocolError
    sendMail outcomes mail =
      attempt (sendCommand outcomes .mail (ascii "MAIL From:<") mail.sender (ascii ">\r\n") mailOk)
        (attempt (sendCommand outcomes .rcpt (ascii "RCPT To:<") mail.recipient (ascii ">\r\n") mailOk)
          (attempt (sendCommand outcomes .data [] (ascii "DATA") (ascii "\r\n") mailGoAhead)
            (attempt (sendMailMessage outcomes mail)
              (attempt (sendCommand outcomes .quit [] (ascii "QUIT") (ascii "\r\n") mailGoodbye)
                (finish outcomes 0) failed) failed) failed) failed) failed := by
  have nonzero : protocolError ≠ 0 := by decide
  rw [sendMail,connected]
  simp only [if_true,guarded_attempt,guarded_failed nonzero]
  rfl

theorem finish_failed (outcomes : Outcomes) : (finish outcomes protocolError).value ≠ 0 := by
  unfold finish
  split <;> decide

theorem finish_zero (outcomes : Outcomes) : (finish outcomes 0).value = 0 ↔ outcomes.closed = true := by
  cases closed : outcomes.closed with
  | true => simp [finish,closed]
  | false => simp [finish,closed,error]

theorem sendMail_unconnected {outcomes : Outcomes} (unconnected : outcomes.connected ≠ true) (mail : Mail) :
    sendMail outcomes mail = finish outcomes noSocketConn := by
  have nonzero : noSocketConn ≠ 0 := by decide
  rw [sendMail,if_neg unconnected]
  simp only [guarded_failed nonzero]
  rfl

/-- DATA and QUIT have no argument that could overrun the buffer. -/
theorem verb_fits (outcomes : Outcomes) (stage : Stage) (retCode : Nat) {verb : List UInt8} (short : verb.length = 4) :
    (outcomes.exchange stage [] verb (ascii "\r\n") retCode).Fits := by
  have text : (cstr verb).length ≤ verb.length := (List.takeWhile_prefix _).length_le
  have ending : (cstr (ascii "\r\n")).length = 2 := by decide +kernel
  have none : (cstr []).length = 0 := rfl
  change (cstr [] ++ cstr verb ++ cstr (ascii "\r\n")).length < bufsize
  rw [List.length_append,List.length_append,none,ending]
  unfold bufsize
  omega

/-- send_mail is truthful in exactly the sessions whose commands fit and whose replies it
reads rightly. -/
theorem sendMail_truthful_iff (outcomes : Outcomes) (mail : Mail) :
    Truthful outcomes mail ↔ RightlyRead outcomes mail := by
  by_cases connected : outcomes.connected = true
  · have fails := finish_failed outcomes
    have sound : Truthful outcomes mail ↔ Sound (outcomes.Accepted .mail ∧ outcomes.Accepted .rcpt ∧
        outcomes.Accepted .data ∧ outcomes.Accepted .terminator ∧ outcomes.Accepted .quit)
        (sendMail outcomes mail) :=
      ⟨fun truthful => ⟨fun zero => (truthful.success zero).2,truthful.stops,truthful.defined⟩,
        fun sound => ⟨fun zero => ⟨connected,sound.success zero⟩,sound.stops,sound.defined⟩⟩
    rw [sound,sendMail_chain connected,sound_command fails rfl command_opens,
      sound_command fails rfl command_opens,sound_command fails rfl message_opens,
      sound_message fails rfl command_opens,sound_quit fails rfl rfl,finish_zero,
      and_iff_right (verb_fits outcomes .data mailGoAhead rfl),
      and_iff_right (verb_fits outcomes .quit mailGoodbye rfl)]
    exact ⟨fun right _ => right,fun right => right connected⟩
  · refine ⟨fun _ now => absurd now connected,fun _ => ?_⟩
    have fails : (finish outcomes noSocketConn).value ≠ 0 := by
      unfold finish
      split <;> decide
    have sound : Sound (outcomes.connected = true) (finish outcomes noSocketConn) :=
      sound_failed fails stops_nil List.not_mem_nil
    rw [← sendMail_unconnected connected mail] at fails sound
    exact ⟨fun zero => absurd zero fails,sound.stops,sound.defined⟩

def refusedMail : Outcomes where
  connected := true
  sent _ := true
  reply
    | .mail | .rcpt => ascii "250 OK\r\n"
    | .data => ascii "354 go ahead\r\n"
    | .terminator => ascii "554 refused\r\n"
    | .quit => ascii "221 bye\r\n"
    | _ => []
  behind _ := []
  closed := true
  fits stage := by cases stage <;> decide +kernel

theorem sendMail_refused : ¬∀ outcomes mail, Truthful outcomes mail := by
  intro always
  have success := (always refusedMail ⟨ascii "a",ascii "b",[],[],[],[]⟩).success (by decide +kernel)
  have accepted := success.2.2.2.2.1
  revert accepted
  simp only [Outcomes.Accepted,Accepts]
  decide +kernel

end Libsme.Email
