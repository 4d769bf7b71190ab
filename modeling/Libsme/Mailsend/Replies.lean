import Libsme.Mailsend.Guarantees

/-! Which line of the server becomes the reply to which command. A server that sends whole lines
is read line by line, in order; the session stays in step with it where it answers each
command after the hello with one line. -/
namespace Libsme.Mailsend
open Script History
open Semantics.Rfc4648 (ascii)

/-- The bytes of lines that end in LF, as recv gives them. -/
def wire (lines : List (List UInt8)) : List (Option UInt8) := lines.flatMap fun line => (line ++ [10]).map some

/-- What sockGets stores of a line. -/
def stored (line : List UInt8) : List UInt8 := (line.filter (· ≠ 13)).take (bufsiz-1)

def replyOf (line : List UInt8) : Option Reply := parseReply (stored line)

/-- A server that sends whole lines. -/
structure Orderly (server : Server) where
  lines : List Event → List (List UInt8)
  reacts : ∀ log, server.reacts log = wire (lines log)
  whole : ∀ log, ∀ line ∈ lines log, 10 ∉ line

section Lines
variable {line : List UInt8} {lines more : List (List UInt8)} {count : Nat} {kept : List UInt8}

theorem sockGets_line (whole : 10 ∉ line) (room : kept.length ≤ count) (rest : List (Option UInt8)) :
    sockGets count kept ((line ++ [10]).map some ++ rest) =
      (some (kept ++ (line.filter (· ≠ 13)).take (count-kept.length)),rest) := by
  induction line generalizing kept with
  | nil => simp [sockGets]
  | cons byte line ih =>
    obtain ⟨other,later⟩ := List.ne_and_not_mem_of_not_mem_cons whole
    rw [List.cons_append,List.map_cons,List.cons_append,sockGets,if_neg (Ne.symm other)]
    by_cases return_ : byte = 13
    · subst return_
      rw [if_neg (fun both => both.2 rfl),ih later room]
      simp
    · by_cases full : kept.length < count
      · rw [if_pos ⟨full,return_⟩,ih later (by rw [List.length_append]; exact full)]
        rw [List.filter_cons_of_pos (by simpa using return_),List.length_append,List.append_assoc]
        obtain ⟨left,same⟩ : ∃ left, count-kept.length = left+1 := ⟨count-kept.length-1,by omega⟩
        rw [same,List.take_succ_cons,show count-(kept.length+[byte].length) = left by simp; omega]
        rfl
      · rw [if_neg (fun both => full both.1),ih later room,show count-kept.length = 0 by omega,List.take_zero,
          List.take_zero]

theorem sockGets_wire (whole : ∀ line ∈ lines, 10 ∉ line) :
    sockGets (bufsiz-1) [] (wire lines) = (lines.head?.map stored,wire lines.tail) := by
  cases lines with
  | nil => rfl
  | cons line lines =>
    have read := @sockGets_line line (bufsiz-1) [] (whole line List.mem_cons_self) (Nat.zero_le _) (wire lines)
    exact read

theorem wire_append : wire (lines ++ more) = wire lines ++ wire more := List.flatMap_append

end Lines

section Owed
variable (lines : List Event → List (List UInt8))

def owedNext (log : List Event) (owed : List (List UInt8)) : Event → List (List UInt8)
  | .heard _ _ => owed.tail
  | .handshake success => lines (log ++ [.handshake success])
  | event => owed ++ lines (log ++ [event])

def owedFrom : List Event → List (List UInt8) → List Event → List (List UInt8)
  | _, owed, [] => owed
  | log, owed, event::rest => owedFrom (log ++ [event]) (owedNext lines log owed event) rest

/-- The lines that the server has sent and the client has not read after what happened. -/
def owed (log : List Event) : List (List UInt8) := owedFrom lines [] [] log

theorem owedFrom_append (log : List Event) (left : List (List UInt8)) (events more : List Event) :
    owedFrom lines log left (events ++ more) = owedFrom lines (log ++ events) (owedFrom lines log left events) more := by
  induction events generalizing log left with
  | nil => simp [owedFrom]
  | cons event events ih => simp [owedFrom,ih]

theorem owed_concat (log : List Event) (event : Event) :
    owed lines (log ++ [event]) = owedNext lines log (owed lines log) event := by
  rw [owed,owedFrom_append]
  rfl

end Owed

/-- Every reply is made from the oldest line that was not read. -/
def InOrder (lines : List Event → List (List UInt8)) (log : List Event) : Prop :=
  Each (fun front event => ∀ tls reply, event = .heard tls reply → reply = (owed lines front).head?.bind replyOf) log

namespace Session
variable {server : Server} {settings : Settings} {scope : Scope} {session after : Session}

/-- The bytes to be read are those of the lines owed. -/
structure Queued (orderly : Orderly server) (session : Session) : Prop where
  inbox : session.inbox = wire (owed orderly.lines session.log)
  whole : ∀ line ∈ owed orderly.lines session.log, 10 ∉ line
  inOrder : InOrder orderly.lines session.log

theorem readSmtpLine_queued {orderly : Orderly server} (queued : Queued orderly session) :
    session.readSmtpLine.2.inbox = wire (owed orderly.lines session.log).tail ∧
    session.readSmtpLine.2.log =
      session.log ++ [.heard session.ssl ((owed orderly.lines session.log).head?.bind replyOf)] := by
  have read := sockGets_wire queued.whole
  unfold readSmtpLine
  rw [queued.inbox,read]
  dsimp only
  rw [Option.bind_map]
  split <;> exact ⟨rfl,rfl⟩

theorem Queued.happens {orderly : Orderly server} (queued : Queued orderly session) {event : Event}
    (unread : ∀ tls reply, event ≠ .heard tls reply) (append : ∀ success, event ≠ .handshake success) :
    Queued orderly (session.happens server event) := by
  have grows : owed orderly.lines (session.log ++ [event]) =
      owed orderly.lines session.log ++ orderly.lines (session.log ++ [event]) := by
    rw [owed_concat]
    cases event with
    | heard tls reply => exact absurd rfl (unread tls reply)
    | handshake success => exact absurd rfl (append success)
    | connected => rfl
    | sent tls command => rfl
  constructor
  · rw [Session.happens,grows,wire_append,← queued.inbox,← orderly.reacts]
  · rw [Session.happens,grows]
    exact List.forall_mem_append.mpr ⟨queued.whole,orderly.whole _⟩
  · exact Each.concat queued.inOrder fun tls reply same => absurd same (unread tls reply)

theorem Queued.step {orderly : Orderly server} (queued : Queued orderly session)
    (step : Step server scope session after) : Queued orderly after := by
  cases step with
  | puts command => exact queued.happens (by simp) (by simp)
  | reads =>
    obtain ⟨inbox,log⟩ := readSmtpLine_queued queued
    have left : owed orderly.lines session.readSmtpLine.2.log = (owed orderly.lines session.log).tail := by
      rw [log,owed_concat]
      rfl
    refine ⟨by rw [left,inbox],?_,?_⟩
    · rw [left]
      exact fun line member => queued.whole line (List.mem_of_mem_tail member)
    · rw [log]
      refine Each.concat queued.inOrder fun tls reply same => ?_
      exact (Event.heard.inj same).2.symm
  | connects =>
    have anew : owed orderly.lines (session.sslConnect server).2.log = orderly.lines (session.sslConnect server).2.log :=
      owed_concat _ _ _
    refine ⟨by rw [anew]; exact orderly.reacts _,by rw [anew]; exact orderly.whole _,?_⟩
    exact Each.concat queued.inOrder fun tls reply same => absurd same (by simp)
  | notes => exact ⟨queued.inbox,queued.whole,queued.inOrder⟩
  | cap =>
    have log := @addServerCapToList_log session session.smtpLine
    have inbox : (session.addServerCapToList session.smtpLine).inbox = session.inbox := by
      unfold addServerCapToList
      split <;> rfl
    exact ⟨by rw [inbox,log]; exact queued.inbox,by rw [log]; exact queued.whole,by rw [log]; exact queued.inOrder⟩

theorem Queued.runs {orderly : Orderly server} (queued : Queued orderly session)
    (runs : Runs server scope session after) : Queued orderly after :=
  runs.keeps (fun _ _ step queued => queued.step step) queued

theorem connected_queued (orderly : Orderly server) : Queued orderly (initial.happens server .connected) := by
  have start : Queued orderly initial := ⟨rfl,fun _ member => absurd member List.not_mem_nil,Each.nil⟩
  exact start.happens (by simp) (by simp)

/-- A reply of at most so many lines, all but the last marked with a dash. -/
inductive Several : Nat → List (List UInt8) → Prop
  | last {count line reply} (read : replyOf line = some reply) (ends : reply.sep ≠ dash) : Several (count+1) [line]
  | more {count line reply rest} (read : replyOf line = some reply) (goes : reply.sep = dash)
      (later : Several count rest) : Several (count+1) (line::rest)

theorem read_line {orderly : Orderly server} {line : List UInt8} {rest : List (List UInt8)} (queued : Queued orderly session)
    (lines : owed orderly.lines session.log = line::rest) :
    Queued orderly session.readSmtpLine.2 ∧ owed orderly.lines session.readSmtpLine.2.log = rest ∧
      (∀ reply, replyOf line = some reply → session.readSmtpLine.1 = 0 ∧ session.readSmtpLine.2.smtpSep = reply.sep ∧
        session.readSmtpLine.2.smtpCode = reply.code) := by
  obtain ⟨_,log⟩ := readSmtpLine_queued queued
  refine ⟨queued.runs (@reads_runs server .free session),?_,?_⟩
  · rw [log,owed_concat,lines]
    rfl
  · intro reply read
    obtain ⟨heard,same,rc,holds,_⟩ := @readSmtpLine_reply session
    have equal : heard = some reply := by
      rw [log,lines] at same
      have events := List.append_cancel_left same
      simpa [read] using events.symm
    subst equal
    exact ⟨rc,holds.sep reply rfl,holds.code⟩

theorem noteEsmtp_log : session.noteEsmtp.log = session.log := by
  unfold noteEsmtp
  split <;> rfl

theorem greetingLines_reads {orderly : Orderly server} {left : Nat} {lines : List (List UInt8)} (several : Several left lines)
    (queued : Queued orderly session) (unread : owed orderly.lines session.log = lines) :
    owed orderly.lines (greetingLines (left+1) session).2.log = [] := by
  induction several generalizing session with
  | @last count line reply read ends =>
    obtain ⟨_,left,told⟩ := read_line queued unread
    obtain ⟨rc,sep,_⟩ := told reply read
    unfold greetingLines
    generalize session.readSmtpLine = answered at left rc sep ⊢
    obtain ⟨_,next⟩ := answered
    dsimp only at left rc sep ⊢
    subst rc
    rw [if_neg (by decide),if_neg (Nat.succ_ne_zero count)]
    have marked : next.noteEsmtp.smtpSep ≠ dash := by
      rw [noteEsmtp]
      split <;> exact sep ▸ ends
    rw [if_pos marked,noteEsmtp_log]
    exact left
  | @more count line reply rest read goes later ih =>
    obtain ⟨queued,left,told⟩ := read_line queued unread
    obtain ⟨rc,sep,_⟩ := told reply read
    unfold greetingLines
    generalize session.readSmtpLine = answered at queued left rc sep ⊢
    obtain ⟨_,next⟩ := answered
    dsimp only at queued left rc sep ⊢
    subst rc
    rw [if_neg (by decide),if_neg (Nat.succ_ne_zero count)]
    have marked : next.noteEsmtp.smtpSep = dash := by
      rw [noteEsmtp]
      split <;> exact sep.trans goes
    rw [if_neg (not_not.mpr marked)]
    exact ih (queued.runs (@noteEsmtp_runs server .free next)) (by rw [noteEsmtp_log]; exact left)

theorem capLines_reads {orderly : Orderly server} {left : Nat} {lines : List (List UInt8)} (several : Several left lines)
    (queued : Queued orderly session) (unread : owed orderly.lines session.log = lines) :
    owed orderly.lines (capLines left session).2.log = [] := by
  induction several generalizing session with
  | @last count line reply read ends =>
    obtain ⟨_,left,told⟩ := read_line queued unread
    obtain ⟨rc,sep,_⟩ := told reply read
    unfold capLines
    generalize session.readSmtpLine = answered at left rc sep ⊢
    obtain ⟨_,next⟩ := answered
    dsimp only at left rc sep ⊢
    subst rc
    rw [if_pos rfl]
    have done : owed orderly.lines (next.addServerCapToList next.smtpLine).log = [] := by
      rw [addServerCapToList_log]
      exact left
    have marked : (next.addServerCapToList next.smtpLine).smtpSep ≠ dash := by
      rw [addServerCapToList]
      split <;> exact sep ▸ ends
    rw [if_pos (Or.inr marked)]
    split <;> exact done
  | @more count line reply rest read goes later ih =>
    obtain ⟨queued,left,told⟩ := read_line queued unread
    obtain ⟨rc,sep,_⟩ := told reply read
    unfold capLines
    generalize session.readSmtpLine = answered at queued left rc sep ⊢
    obtain ⟨_,next⟩ := answered
    dsimp only at queued left rc sep ⊢
    subst rc
    have positive : count ≠ 0 := by
      cases later <;> exact Nat.succ_ne_zero _
    have marked : (next.addServerCapToList next.smtpLine).smtpSep = dash := by
      rw [addServerCapToList]
      split <;> exact sep.trans goes
    rw [if_pos rfl,if_neg positive,if_neg (by simp [marked])]
    refine ih (queued.runs (Step.cap next trivial : Step server .free _ _).runs) ?_
    rw [addServerCapToList_log]
    exact left

end Session

/-- The server greets, answers a hello with a reply of several lines only when it agrees, every other command
with one line and the message with none. -/
structure Polite (server : Server) (settings : Settings) (orderly : Orderly server) : Prop where
  greeting : Session.Several 100 (orderly.lines (beforeGreeting server settings))
  hello : ∀ front tls extended domain, Session.Several 1001 (orderly.lines (front ++ [.sent tls (.hello extended domain)]))
  agrees : ∀ front tls extended domain line reply rest,
    orderly.lines (front ++ [.sent tls (.hello extended domain)]) = line::rest → replyOf line = some reply →
      rest ≠ [] → reply.code = 250
  single : ∀ front tls command, (∀ extended domain, command ≠ .hello extended domain) → (∀ part, command ≠ .content part) →
    ∃ line, orderly.lines (front ++ [.sent tls command]) = [line]
  silent : ∀ front tls part, orderly.lines (front ++ [.sent tls (.content part)]) = []
  encrypted : ∀ front success, front ≠ [.connected] → orderly.lines (front ++ [.handshake success]) = []

namespace Session
variable {server : Server} {settings : Settings} {session : Session} {orderly : Orderly server}

theorem owed_sent (lines : List Event → List (List UInt8)) (log : List Event) (tls : Bool) (command : Command) :
    owed lines (log ++ [.sent tls command]) = owed lines log ++ lines (log ++ [.sent tls command]) := owed_concat _ _ _

theorem readGreetings_settled {lines : List (List UInt8)} (several : Several 100 lines) (queued : Queued orderly session)
    (unread : owed orderly.lines session.log = lines) (welcome : (session.readGreetings settings).1 = 0) :
    owed orderly.lines (session.readGreetings settings).2.log = [] := by
  cases several with
  | @last count line reply read ends =>
    obtain ⟨_,left,told⟩ := read_line queued unread
    obtain ⟨rc,sep,code⟩ := told reply read
    unfold readGreetings at welcome ⊢
    generalize session.readSmtpLine = answered at left rc sep code welcome ⊢
    obtain ⟨_,next⟩ := answered
    dsimp only at left rc sep code welcome ⊢
    subst rc
    rw [if_neg (by decide)] at welcome ⊢
    by_cases greeted : next.smtpCode ≠ 220
    · rw [if_pos greeted] at welcome
      exact absurd (show (-1 : Int) = 0 from welcome) (by decide)
    rw [if_neg greeted]
    have marked : ¬({next with sEsmtp := settings.esmtp} : Session).noteEsmtp.smtpSep = dash := by
      rw [noteEsmtp]
      split <;> exact sep ▸ ends
    rw [if_neg marked]
    dsimp only
    rw [noteEsmtp_log]
    exact left
  | @more count line reply rest read goes later =>
    obtain ⟨queued,left,told⟩ := read_line queued unread
    obtain ⟨rc,sep,code⟩ := told reply read
    unfold readGreetings at welcome ⊢
    generalize session.readSmtpLine = answered at queued left rc sep code welcome ⊢
    obtain ⟨_,next⟩ := answered
    dsimp only at queued left rc sep code welcome ⊢
    subst rc
    rw [if_neg (by decide)] at welcome ⊢
    by_cases greeted : next.smtpCode ≠ 220
    · rw [if_pos greeted] at welcome
      exact absurd (show (-1 : Int) = 0 from welcome) (by decide)
    rw [if_neg greeted]
    have marked : ({next with sEsmtp := settings.esmtp} : Session).noteEsmtp.smtpSep = dash := by
      rw [noteEsmtp]
      split <;> exact sep.trans goes
    rw [if_pos marked]
    dsimp only
    have forced := queued.runs (Step.notes next next.smtpSep settings.esmtp : Step server .free _ _).runs
    exact greetingLines_reads later (forced.runs (@noteEsmtp_runs server .free _)) (by rw [noteEsmtp_log]; exact left)

theorem sayHelo_settled {domain : List UInt8} (polite : Polite server settings orderly) (queued : Queued orderly session)
    (empty : owed orderly.lines session.log = []) : owed orderly.lines (session.sayHelo server domain).2.log = [] := by
  have asked : Queued orderly (session.msockPuts server (.hello session.sEsmtp domain)) := queued.happens (by simp) (by simp)
  have unread := owed_sent orderly.lines session.log session.ssl (.hello session.sEsmtp domain)
  rw [empty,List.nil_append] at unread
  have several := polite.hello session.log session.ssl session.sEsmtp domain
  have agrees := polite.agrees session.log session.ssl session.sEsmtp domain
  generalize orderly.lines (session.log ++ [.sent session.ssl (.hello session.sEsmtp domain)]) = lines at unread several agrees
  unfold sayHelo exchange
  cases several with
  | @last count line reply read ends =>
    obtain ⟨_,left,told⟩ := read_line asked unread
    obtain ⟨rc,sep,code⟩ := told reply read
    generalize (session.msockPuts server (.hello session.sEsmtp domain)).readSmtpLine = answered at left rc sep code ⊢
    obtain ⟨_,next⟩ := answered
    dsimp only at left rc sep code ⊢
    split
    · exact left
    · rw [if_neg (by rw [sep]; exact ends)]
      exact left
  | @more count line reply rest read goes later =>
    obtain ⟨queued,left,told⟩ := read_line asked unread
    obtain ⟨rc,sep,code⟩ := told reply read
    have agreed := agrees line reply rest rfl read (by cases later <;> exact List.cons_ne_nil _ _)
    generalize (session.msockPuts server (.hello session.sEsmtp domain)).readSmtpLine = answered at queued left rc sep code ⊢
    obtain ⟨_,next⟩ := answered
    dsimp only at queued left rc sep code ⊢
    rw [if_neg (by rw [code,agreed]; exact not_not.mpr rfl),if_pos (sep.trans goes)]
    exact capLines_reads later queued left

theorem Queued.exchange (queued : Queued orderly session) (command : Command) :
    Queued orderly (session.exchange server command).2 :=
  queued.runs (@exchange_runs server .free session command trivial)

/-- A command that is answered with one line leaves nothing to be read. -/
theorem spoken_settled (polite : Polite server settings orderly) {log : List Event} (empty : owed orderly.lines log = [])
    (tls : Bool) {command : Command} (reply : Option Reply) (noHello : ∀ extended domain, command ≠ .hello extended domain)
    (noContent : ∀ part, command ≠ .content part) :
    owed orderly.lines (log ++ [.sent tls command,.heard tls reply]) = [] := by
  obtain ⟨line,one⟩ := polite.single log tls command noHello noContent
  have both : log ++ [.sent tls command,.heard tls reply] = log ++ [.sent tls command] ++ [.heard tls reply] := by simp
  rw [both,owed_concat,owed_sent,empty,one]
  rfl

theorem smtpStartTls_settled (polite : Polite server settings orderly) (empty : owed orderly.lines session.log = []) :
    owed orderly.lines (session.smtpStartTls server settings).2.log = [] := by
  obtain ⟨reply,spoke,_,_⟩ := @exchange_reply server session .startTls
  unfold smtpStartTls
  generalize session.exchange server .startTls = answered at spoke ⊢
  obtain ⟨_,next⟩ := answered
  dsimp only at spoke ⊢
  have settled : owed orderly.lines next.log = [] := by
    rw [spoke.log]
    exact spoken_settled polite empty session.ssl reply (by simp) (by simp)
  split
  · exact settled
  · split
    · split
      · rw [sslConnect]
        dsimp only
        rw [owed_concat]
        apply polite.encrypted
        intro start
        have longer := spoke.log
        rw [start] at longer
        have lengths := congrArg List.length longer
        simp [spoken] at lengths
      · exact settled
    · exact settled

theorem openSession_settled {domain : List UInt8} (polite : Polite server settings orderly) (queued : Queued orderly session)
    (greets : Several 100 (owed orderly.lines session.log)) {rc : Int}
    (goes : (session.openSession server settings domain).1 = .ok rc) :
    owed orderly.lines (session.openSession server settings domain).2.log = [] := by
  have first := @readGreetings_rc settings session
  have settled := @readGreetings_settled server settings session orderly _ greets queued rfl
  have welcomed := queued.runs (@readGreetings_runs server settings .free session)
  unfold openSession at goes ⊢
  generalize session.readGreetings settings = greeted at first settled welcomed goes ⊢
  obtain ⟨_,next⟩ := greeted
  dsimp only at first settled welcomed goes ⊢
  obtain rfl | rfl := first
  swap
  · exact absurd goes (by simp)
  rw [if_neg (by decide)]
  have saluted := @sayHelo_settled server settings next orderly domain polite welcomed (settled rfl)
  have heard := welcomed.runs (@sayHelo_runs server .free next domain trivial fun _ => trivial)
  generalize next.sayHelo server domain = answered at saluted heard ⊢
  obtain ⟨_,ready⟩ := answered
  dsimp only at saluted heard ⊢
  split
  · have started := smtpStartTls_settled polite saluted
    have secure := heard.runs (@smtpStartTls_runs server settings .free ready trivial fun _ => trivial)
    generalize ready.smtpStartTls server settings = answered at started secure ⊢
    obtain ⟨rc,secured⟩ := answered
    dsimp only at started secure ⊢
    split
    · exact sayHelo_settled polite secure started
    · exact started
  · exact saluted

end Session

def Command.Answered (command : Command) : Prop :=
  (∀ extended domain, command ≠ .hello extended domain) ∧ ∀ part, command ≠ .content part

/-- Commands that are answered, message parts that are not, and in the end what is read besides. -/
inductive Turnwise (tls : Bool) : List Event → Prop
  | listens (replies : List (Option Reply)) : Turnwise tls (replies.map (.heard tls))
  | writes {part rest} (later : Turnwise tls rest) : Turnwise tls (.sent tls (.content part)::rest)
  | asks {command reply rest} (answered : command.Answered) (later : Turnwise tls rest) :
      Turnwise tls (.sent tls command::.heard tls reply::rest)

section Turns
variable {settings : Settings} {sender : List UInt8} {tls : Bool} {events rest : List Event} {rc : Int}

theorem Turnwise.spoken {turns : List (Command × Option Reply)}
    (plain : ∀ command ∈ turns.map Prod.fst, command.Answered) (later : Turnwise tls rest) : Turnwise tls (spoken tls turns ++ rest) := by
  induction turns with
  | nil => exact later
  | cons turn turns ih =>
    obtain ⟨here,others⟩ := List.forall_mem_cons.mp plain
    exact .asks here (ih others)

theorem Turnwise.contents (parts : List (List UInt8)) (later : Turnwise tls rest) :
    Turnwise tls (contents tls parts ++ rest) := by
  induction parts with
  | nil => exact later
  | cons part parts ih => exact .writes ih

theorem Turnwise.done : Turnwise tls [] := .listens []

theorem Turnwise.settled {server : Server} {orderly : Orderly server} (polite : Polite server settings orderly)
    (turnwise : Turnwise tls events) {log : List Event} (empty : owed orderly.lines log = [])
    {middle tail : List Event} {tls' : Bool} {command : Command} (split : events = middle ++ .sent tls' command::tail) :
    owed orderly.lines (log ++ middle) = [] := by
  induction turnwise generalizing log middle with
  | listens replies =>
    have member : .sent tls' command ∈ replies.map (Event.heard tls) := by rw [split]; simp
    obtain ⟨_,_,never⟩ := List.mem_map.mp member
    exact absurd never (by simp)
  | @writes part rest later ih =>
    cases middle with
    | nil => rwa [List.append_nil]
    | cons head middle =>
      obtain ⟨rfl,after⟩ := List.cons.inj split
      have read : owed orderly.lines (log ++ [.sent tls (.content part)]) = [] := by
        rw [Session.owed_sent,empty,polite.silent]
        rfl
      have grown := @ih _ read middle after
      rwa [List.append_assoc] at grown
  | @asks command reply rest answered later ih =>
    cases middle with
    | nil => rwa [List.append_nil]
    | cons head middle =>
      obtain ⟨rfl,after⟩ := List.cons.inj split
      cases middle with
      | nil => exact absurd after (by simp)
      | cons second middle =>
        obtain ⟨rfl,last⟩ := List.cons.inj after
        have grown := ih (Session.spoken_settled polite empty tls reply answered.1 answered.2) last
        rwa [List.append_assoc] at grown

theorem Course.turnwise (course : Course settings sender tls events rc) : Turnwise tls events := by
  have alone {turns : List (Command × Option Reply)} (answered : ∀ command ∈ turns.map Prod.fst, command.Answered) :
      Turnwise tls (Libsme.Mailsend.spoken tls turns) := by
    have whole := Turnwise.spoken answered (@Turnwise.done tls)
    rwa [List.append_nil] at whole
  have begun {addresses : List (List UInt8)} {turns : List (Command × Option Reply)}
      (begun : turns.map Prod.fst <+: (envelope sender settings.notifyRcpt addresses).map Prod.fst) :
      ∀ command ∈ turns.map Prod.fst, command.Answered := by
    intro command member
    have inside := begun.subset member
    simp only [envelope,beginning,recipients,List.map_append,List.map_cons,List.map_nil,List.map_map,List.mem_append,
      List.mem_singleton,List.mem_map,Function.comp_apply] at inside
    rcases inside with (rfl | ⟨address,_,rfl⟩) | rfl <;> simp [Command.Answered]
  cases course with
  | @unwelcome turns refused => exact alone (@begun [] turns (refused.append [(.data,NotRefused 354)]).requests)
  | refused given welcome refused =>
    apply alone
    rw [← List.append_assoc,List.map_append]
    refine List.forall_mem_append.mpr ⟨begun ((welcome.refused refused).append [(.data,NotRefused 354)]).requests,?_⟩
    simp [Command.Answered]
  | @missing addresses turns given accepted =>
    refine alone (@begun addresses turns ?_)
    rw [accepted.requests,envelope]
    exact (List.prefix_append _ _).map _
  | noData given refused asked => exact alone (begun refused.requests)
  | broken given accepted failed =>
    have parts := Turnwise.contents settings.mail.smtpMail.1 (@Turnwise.done tls)
    rw [List.append_nil] at parts
    exact .spoken (begun (by rw [accepted.requests])) parts
  | rejected given accepted complete rejected more =>
    rw [List.append_assoc,List.append_assoc]
    exact .spoken (begun (by rw [accepted.requests]))
      (.contents _ (.spoken (by simp [Command.Answered]) (.listens more)))
  | delivered given accepted complete taken =>
    rw [List.append_assoc]
    exact .spoken (begun (by rw [accepted.requests])) (.contents _ (alone (by simp [Command.Answered])))

end Turns

section Whole
variable (server : Server) (settings : Settings) (orderly : Orderly server)

theorem sendTheMail_queued : Session.Queued orderly (sendTheMail server settings).2 := by
  obtain same | ⟨ready,_,_,before,after,_⟩ := sendTheMail_conversation server settings
  · rw [same]
    exact ⟨rfl,fun _ member => absurd member List.not_mem_nil,Each.nil⟩
  · exact ((Session.connected_queued orderly).runs before).runs after

def orderlyOffice : Orderly postOffice where
  lines := postLines
  reacts := fun _ => rfl
  whole := by
    intro log
    unfold postLines
    split <;> decide

/-- With a server that answers once, what is read after a command of authentication or mail is the
answer to it. -/
theorem replies_answer (polite : Polite server settings orderly) : ∀ front tls command reply rest,
    (sendTheMail server settings).2.log = front ++ .sent tls command::.heard tls reply::rest → ¬Session.Opens command →
      (∀ part, command ≠ .content part) → ∃ line, orderly.lines (front ++ [.sent tls command]) = [line] ∧ reply = replyOf line := by
  intro front tls command reply rest split later noContent
  have queued := sendTheMail_queued server settings orderly
  obtain same | ⟨ready,turns,events,before,_,⟨start,domain,begins,started,opened,goes⟩,conversation,holds,_,log⟩ :=
    sendTheMail_conversation server settings
  · rw [same] at split
    exact absurd split (by simp [initial])
  have authenticates {command : Command} (auth : command.Authenticates) : command.Answered := by
    cases command <;> simp_all [Command.Authenticates,Command.Answered]
  have turnwise : Turnwise ready.ssl (spoken ready.ssl turns ++ events) := by
    refine .spoken (fun command member => authenticates (conversation.authenticates command member)) ?_
    obtain rfl | ⟨_,_,_,_,course⟩ := conversation.course
    · exact .done
    · exact course.turnwise
  have inOrder := queued.inOrder (front ++ [.sent tls command]) (.heard tls reply) rest
    (by rw [split,List.append_assoc]; rfl) tls reply rfl
  rw [log] at split
  obtain ⟨middle,rfl,after⟩ := History.later split fun early => later (holds.begins _ early).1
  have spoke : turns ≠ [] ∨ events ≠ [] := by
    by_contra silent
    obtain ⟨rfl,rfl⟩ : turns = [] ∧ events = [] := by simpa [not_or] using silent
    exact absurd after (by simp [spoken])
  obtain ⟨rc,goes⟩ := goes spoke
  have greets : Session.Several 100 (owed orderly.lines start.log) := by
    have fresh : owed orderly.lines (beforeGreeting server settings) = orderly.lines (beforeGreeting server settings) := by
      unfold beforeGreeting
      split <;> rfl
    rw [begins,fresh]
    exact polite.greeting
  have empty : owed orderly.lines ready.log = [] := by
    rw [opened]
    exact Session.openSession_settled polite ((Session.connected_queued orderly).runs started) greets goes
  have settled := turnwise.settled polite empty after
  have noHello : ∀ extended domain, command ≠ .hello extended domain := by
    rintro extended domain rfl
    exact later trivial
  obtain ⟨line,one⟩ := polite.single (ready.log ++ middle) tls command noHello noContent
  refine ⟨line,one,?_⟩
  rw [inOrder,Session.owed_sent,settled,one]
  rfl

theorem politeOffice : Polite postOffice noted orderlyOffice := by
  have after (front : List Event) (event : Event) : (front ++ [event]).getLast? = some event := by simp
  have hello (front : List Event) (tls extended : Bool) (domain : List UInt8) :
      orderlyOffice.lines (front ++ [.sent tls (.hello extended domain)]) = [ascii "250-here",ascii "250 AUTH PLAIN"] := by
    change postLines _ = _
    rw [postLines,after]
  have first : replyOf (ascii "250-here") = some ⟨250,45,ascii "here"⟩ := by decide +kernel
  constructor
  · exact @Session.Several.last 99 (ascii "220 ready") ⟨220,32,ascii "ready"⟩ (by decide +kernel) (by decide)
  · intro front tls extended domain
    rw [hello]
    exact .more first rfl (@Session.Several.last 999 _ ⟨250,32,ascii "AUTH PLAIN"⟩ (by decide +kernel) (by decide))
  · intro front tls extended domain line reply rest lines read _
    rw [hello] at lines
    obtain ⟨rfl,_⟩ := List.cons.inj lines
    rw [← Option.some.inj (first.symm.trans read)]
  · intro front tls command noHello noContent
    change ∃ line, postLines _ = [line]
    rw [postLines,after]
    cases command with
    | hello extended domain => exact absurd rfl (noHello extended domain)
    | content part => exact absurd rfl (noContent part)
    | _ => exact ⟨_,rfl⟩
  · intro front tls part
    change postLines _ = []
    rw [postLines,after]
  · intro front success _
    change postLines _ = []
    rw [postLines,after]

theorem replies_answer_noted : ∃ line,
    orderlyOffice.lines ((sendTheMail postOffice noted).2.log.take 11 ++ [.sent false .data]) = [line] ∧
      some ⟨354,32,ascii "go on"⟩ = replyOf line :=
  replies_answer postOffice noted orderlyOffice politeOffice ((sendTheMail postOffice noted).2.log.take 11) false .data _
    ((sendTheMail postOffice noted).2.log.drop 13) (by decide +kernel) (by simp [Session.Opens]) (by simp)

end Whole
end Libsme.Mailsend
