import Libsme.Mailsend.Base64Decoder
import Libsme.Mailsend.Guarantees

/-! What the server reads of a session: the lines of the commands, and the credentials. -/
namespace Libsme.Mailsend
open Script
open Semantics.Rfc4648 (ascii)
open Semantics.Rfc5321 (crlf stream linesOf)

def hexDigit (value : Nat) : UInt8 := (ascii "0123456789abcdef").getD value 0

/-- sprintf("%02x",…) for each byte of the digest. -/
def hex (digest : List UInt8) : List UInt8 := digest.flatMap fun byte => [hexDigit (byte.toNat/16),hexDigit (byte.toNat%16)]

/-- encode_cram_md5 over the HMAC of OpenSSL, of a key and data. -/
def encodeCramMd5 (hmacMd5 : List UInt8 → List UInt8 → Vector UInt8 16) (challenge user secret : List UInt8) :
    Option (List UInt8) :=
  if challenge = [] ∨ user = [] ∨ secret = [] then none
  else
    match mutilsDecodeBase64 challenge with
    | .error _ => none
    | .ok data => mutilsEncodeBase64Noformat (snprintf (user ++ ascii " " ++ hex (hmacMd5 secret data).toList))

theorem encodeNoformat_decodes (data : List UInt8) : mutilsDecodeBase64 (encodeNoformat data) = .ok data := by
  rw [encodeNoformat_eq]
  exact (encode_spells data).decodes

theorem encodeNoformat_oneLine (data : List UInt8) : 10 ∉ encodeNoformat data := by
  rw [encodeNoformat_eq]
  exact encode_oneLine data

theorem encodeCramMd5_text {hmacMd5 : List UInt8 → List UInt8 → Vector UInt8 16} {challenge user secret text : List UInt8}
    (answered : encodeCramMd5 hmacMd5 challenge user secret = some text) : ∃ data, mutilsDecodeBase64 challenge = .ok data ∧
      text = encodeNoformat (snprintf (user ++ ascii " " ++ hex (hmacMd5 secret data).toList)) := by
  unfold encodeCramMd5 at answered
  split at answered
  · exact absurd answered (by simp)
  split at answered
  · exact absurd answered (by simp)
  · rename_i data decoded
    unfold mutilsEncodeBase64Noformat at answered
    split at answered
    · exact absurd answered (by simp)
    · exact ⟨data,decoded,(Option.some.inj answered).symm⟩

/-- The arguments are settings, or the answer to a challenge. -/
def Command.From (settings : Settings) : Command → Prop
  | hello _ domain => settings.heloDomain = some domain
  | credential _ text => (∃ data, text = encodeNoformat data) ∨
      ∃ challenge, settings.encodeCramMd5 challenge settings.username settings.userpass = some text
  | mailFrom sender => settings.letter.sender = some sender
  | rcptTo address notify => some address ∈ settings.addresses ∧ notify = settings.notifyRcpt
  | content part => part ∈ settings.mail.smtpMail.1
  | _ => True

section Provenance
variable {settings : Settings} {sender : List UInt8} {tls : Bool} {events : List Event} {rc : Int}

theorem Session.Greets.from_ {command : Command} (greets : Session.Greets settings command) : command.From settings := by
  cases command with
  | hello extended domain => exact greets.2 extended domain rfl
  | credential => exact greets.1.elim
  | mailFrom => exact greets.1.elim
  | rcptTo => exact greets.1.elim
  | content => exact greets.1.elim
  | _ => trivial

theorem Command.Envelopes.from_ {command : Command} (envelopes : command.Envelopes settings sender)
    (given : settings.letter.sender = some sender) : command.From settings := by
  cases command with
  | mailFrom named => exact given.trans (congrArg some envelopes.symm)
  | rcptTo => exact envelopes
  | data => trivial
  | _ => exact envelopes.elim

/-- The text answers a challenge that the server made. -/
def Challenged (settings : Settings) (turns : List (Command × Option Reply)) (text : List UInt8) : Prop :=
  ∃ reply, (.auth .cramMd5,some reply) ∈ turns ∧ reply.code = 334 ∧
    settings.encodeCramMd5 reply.line settings.username settings.userpass = some text

theorem challenged {turns : List (Command × Option Reply)} {text : List UInt8} {reply : Option Reply}
    (answers : Answers settings turns text) (asked : (.auth .cramMd5,reply) ∈ turns) (agreed : codeOf reply = 334) :
    Challenged settings turns text := by
  cases reply with
  | none => exact absurd agreed (by decide)
  | some reply => exact ⟨reply,asked,agreed,answers _ asked agreed⟩

/-- No credential is said, or the dialogue of the mechanism is followed. -/
theorem Session.Tried.follows {mechanism : Mechanism} {turns : List (Command × Option Reply)} {result : Option Int}
    (tried : Session.Tried settings rc mechanism turns result) :
    (∀ command ∈ turns.map Prod.fst, command = .auth .cramMd5) ∨
    ∃ text, turns.map Prod.fst <+: (dialogue settings text mechanism).map Prod.fst ∧
      (mechanism = .cramMd5 → Challenged settings turns text) := by
  cases tried with
  | incomplete => exact Or.inl (by simp)
  | unsupported => exact Or.inl (by simp)
  | unanswered => exact Or.inl (by simp)
  | @refused text turns refused answers =>
    by_cases cram : mechanism = .cramMd5
    · subst cram
      cases refused with
      | here => exact Or.inl (by simp)
      | later accepted rest =>
        exact Or.inr ⟨text,(Refused.later accepted rest).requests,fun _ => challenged answers List.mem_cons_self accepted⟩
    · exact Or.inr ⟨text,refused.requests,fun same => absurd same cram⟩
  | @accepted text turns accepted answers =>
    refine Or.inr ⟨text,by rw [accepted.requests],fun cram => ?_⟩
    subst cram
    cases accepted with
    | cons accepted _ => exact challenged answers List.mem_cons_self accepted

theorem Session.Tried.from_ {mechanism : Mechanism} {turns : List (Command × Option Reply)} {result : Option Int}
    (tried : Session.Tried settings rc mechanism turns result) : ∀ command ∈ turns.map Prod.fst, command.From settings := by
  obtain none | ⟨text,begun,answers⟩ := tried.follows
  · exact fun command member => none command member ▸ trivial
  · intro command member
    have inside := begun.subset member
    cases mechanism with
    | cramMd5 =>
      obtain ⟨reply,_,_,answered⟩ := answers rfl
      obtain rfl | rfl : command = .auth .cramMd5 ∨ command = .credential .cramMd5 text := by simpa [dialogue] using inside
      · trivial
      · exact Or.inr ⟨reply.line,answered⟩
    | login =>
      obtain rfl | rfl | rfl : command = .auth .login ∨ command = .credential .login (encodeNoformat settings.username) ∨
          command = .credential .login (encodeNoformat settings.userpass) := by simpa [dialogue] using inside
      · trivial
      · exact Or.inl ⟨_,rfl⟩
      · exact Or.inl ⟨_,rfl⟩
    | plain =>
      obtain rfl : command = .credential .plain (encodeNoformat (0::settings.username ++ 0::settings.userpass)) := by
        simpa [dialogue] using inside
      exact Or.inl ⟨_,rfl⟩

theorem Course.from_ (course : Course settings sender tls events rc) (given : settings.letter.sender = some sender) :
    ∀ command ∈ said events, command.From settings := by
  intro command member
  obtain unfinished | ⟨before,goodbye,commands,envelopes,last⟩ := course.said_cases
  · obtain envelopes | rfl | ⟨_,part,inside,rfl⟩ := unfinished command member
    · exact envelopes.from_ given
    · trivial
    · exact inside
  · rw [commands,List.mem_append,List.mem_cons,List.mem_append,List.mem_cons] at member
    rcases member with early | rfl | content | rfl | late
    · exact (envelopes command early).1.from_ given
    · trivial
    · obtain ⟨part,inside,rfl⟩ := List.mem_map.mp content
      exact inside
    · trivial
    · obtain rfl | ⟨rfl,_⟩ := last
      · exact absurd late List.not_mem_nil
      · exact List.mem_singleton.mp late ▸ trivial

end Provenance

section Whole
variable (server : Server) (settings : Settings)

theorem said_from : ∀ command ∈ said (sendTheMail server settings).2.log, command.From settings := by
  obtain same | ⟨ready,turns,events,_,_,_,conversation,holds,_,log⟩ := sendTheMail_conversation server settings
  · rw [same]
    exact fun _ member => absurd member List.not_mem_nil
  rw [log,said_append,said_append,said_spoken]
  refine List.forall_mem_append.mpr ⟨fun command member => (holds.opens command member).from_,
    List.forall_mem_append.mpr ⟨?_,?_⟩⟩
  · obtain none | ⟨mechanism,rc,result,tried⟩ := conversation.tried
    · simp [none]
    · exact tried.from_
  · obtain rfl | ⟨sender,rc,given,_,course⟩ := conversation.course
    · exact fun _ member => absurd member List.not_mem_nil
    · exact course.from_ given

end Whole

def Command.text : Command → List UInt8
  | hello extended domain => ascii (if extended then "EHLO " else "HELO ") ++ domain
  | startTls => ascii "STARTTLS"
  | auth mechanism => ascii "AUTH " ++ mechanism.name
  | credential .plain text => ascii "AUTH PLAIN " ++ text
  | credential _ text => text
  | mailFrom sender => ascii "MAIL FROM: <" ++ sender ++ ascii ">"
  | rcptTo address (some notify) => ascii "RCPT TO: " ++ address ++ ascii " " ++ notify
  | rcptTo address none => ascii "RCPT TO: <" ++ address ++ ascii ">"
  | reset => ascii "RSET"
  | data => ascii "DATA"
  | content part => part
  | eom => []
  | quit => ascii "QUIT"

def Command.writes : Command → Bool
  | content _ => true
  | eom => true
  | _ => false

theorem Command.bytes_text {command : Command} (commands : command.writes = false) :
    command.bytes = snprintf (command.text ++ crlf) := by
  cases command with
  | hello => rfl
  | auth mechanism => cases mechanism <;> decide
  | credential mechanism => cases mechanism <;> rfl
  | mailFrom => simp [bytes,text,ascii,crlf]
  | rcptTo address notify => cases notify <;> simp [bytes,text,ascii,crlf]
  | content => exact absurd commands (by simp [writes])
  | eom => exact absurd commands (by simp [writes])
  | _ => decide

/-- No setting that becomes part of a command holds a newline. -/
structure Settings.Clean (settings : Settings) : Prop where
  domain : ∀ domain ∈ settings.heloDomain, 10 ∉ domain
  sender : ∀ sender ∈ settings.letter.sender, 10 ∉ sender
  addresses : ∀ address, some address ∈ settings.addresses → 10 ∉ address
  notify : ∀ notify ∈ settings.notifyRcpt, 10 ∉ notify

section Lines
variable {settings : Settings} {commands : List Command}

theorem clean_text {hmacMd5 : List UInt8 → List UInt8 → Vector UInt8 16} (clean : settings.Clean)
    (uses : settings.encodeCramMd5 = encodeCramMd5 hmacMd5) {command : Command} (given : command.From settings)
    (commands : command.writes = false) : 10 ∉ command.text := by
  have code {text : List UInt8} (given : (∃ data, text = encodeNoformat data) ∨
      ∃ challenge, settings.encodeCramMd5 challenge settings.username settings.userpass = some text) : 10 ∉ text := by
    obtain ⟨data,rfl⟩ | ⟨challenge,answered⟩ := given
    · exact encodeNoformat_oneLine data
    · rw [uses] at answered
      obtain ⟨data,_,rfl⟩ := encodeCramMd5_text answered
      exact encodeNoformat_oneLine _
  cases command with
  | hello extended domain =>
    have whole := clean.domain domain given
    cases extended <;> simpa [Command.text,ascii] using whole
  | auth mechanism => cases mechanism <;> decide
  | credential mechanism text =>
    have whole := code given
    cases mechanism <;> simpa [Command.text,ascii] using whole
  | mailFrom sender =>
    have whole := clean.sender sender given
    simpa [Command.text,ascii] using whole
  | rcptTo address notify =>
    have whole := clean.addresses address given.1
    cases notify with
    | none => simpa [Command.text,ascii] using whole
    | some notify =>
      have other := clean.notify notify given.2.symm
      simpa [Command.text,ascii] using ⟨whole,other⟩
  | content => exact absurd commands (by simp [Command.writes])
  | eom => exact absurd commands (by simp [Command.writes])
  | _ => decide

theorem bytes_length (plain : ∀ command ∈ commands, command.writes = false) :
    (commands.flatMap Command.bytes).length ≤ (stream (commands.map Command.text)).length := by
  induction commands with
  | nil => exact Nat.le_refl _
  | cons command commands ih =>
    obtain ⟨here,later⟩ := List.forall_mem_cons.mp plain
    have less := ih later
    have first : command.bytes.length ≤ (command.text ++ crlf).length := by
      rw [Command.bytes_text here]
      exact List.length_take_le' _ _
    rw [List.flatMap_cons,List.map_cons,stream,List.flatMap_cons,List.length_append,List.length_append]
    rw [stream] at less
    omega

theorem bytes_stream (plain : ∀ command ∈ commands, command.writes = false) :
    commands.flatMap Command.bytes = stream (commands.map Command.text) ↔
      ∀ command ∈ commands, command.text.length ≤ bufsiz-4 := by
  induction commands with
  | nil => exact iff_of_true rfl fun _ member => absurd member List.not_mem_nil
  | cons command commands ih =>
    obtain ⟨here,later⟩ := List.forall_mem_cons.mp plain
    have less := bytes_length later
    have bytes := Command.bytes_text here
    have size : (command.text ++ crlf).length = command.text.length+2 := List.length_append
    rw [List.forall_mem_cons,← ih later,List.flatMap_cons,List.map_cons,stream,List.flatMap_cons,bytes,snprintf]
    rw [stream] at less ⊢
    constructor
    · intro same
      have lengths := congrArg List.length same
      rw [List.length_append,List.length_append,List.length_take] at lengths
      have fits : (command.text ++ crlf).length ≤ bufsiz-2 := by omega
      rw [List.take_of_length_le fits] at same
      exact ⟨by unfold bufsiz at fits ⊢; omega,List.append_cancel_left same⟩
    · rintro ⟨fits,same⟩
      rw [List.take_of_length_le (by unfold bufsiz at fits ⊢; omega),same]

end Lines

section Whole
variable (server : Server) (settings : Settings)

/-- With clean settings a receiver reads the commands line by line as they were meant, just when
each fits the buffer. -/
theorem commands_read (hmacMd5 : List UInt8 → List UInt8 → Vector UInt8 16)
    (uses : settings.encodeCramMd5 = encodeCramMd5 hmacMd5) (clean : settings.Clean) :
    linesOf (((said (sendTheMail server settings).2.log).filter (!·.writes)).flatMap Command.bytes) =
      (((said (sendTheMail server settings).2.log).filter (!·.writes)).map Command.text,[]) ↔
    ∀ command ∈ said (sendTheMail server settings).2.log, command.writes = false → command.text.length ≤ bufsiz-4 := by
  have plain : ∀ command ∈ (said (sendTheMail server settings).2.log).filter (!·.writes), command.writes = false := by
    intro command member
    simpa using (List.mem_filter.mp member).2
  have whole : ∀ line ∈ ((said (sendTheMail server settings).2.log).filter (!·.writes)).map Command.text, ¬crlf <:+: line := by
    intro line member inside
    obtain ⟨command,among,rfl⟩ := List.mem_map.mp member
    have given := said_from server settings command (List.mem_filter.mp among).1
    exact clean_text clean uses given (plain command among) (inside.subset (by decide))
  have fits : (∀ command ∈ said (sendTheMail server settings).2.log, command.writes = false → command.text.length ≤ bufsiz-4) ↔
      ∀ command ∈ (said (sendTheMail server settings).2.log).filter (!·.writes), command.text.length ≤ bufsiz-4 := by
    simp [List.mem_filter]
  rw [fits,← bytes_stream plain]
  constructor
  · intro read
    have joined := Semantics.Rfc5321.stream_linesOf
      (((said (sendTheMail server settings).2.log).filter (!·.writes)).flatMap Command.bytes)
    rw [read,List.append_nil] at joined
    exact joined.symm
  · intro same
    rw [same]
    exact Semantics.Rfc5321.linesOf_stream whole

/-- The settings with the code for CRAM-MD5 over a digest of zeros. -/
def hashed : Settings := {noted with encodeCramMd5 := encodeCramMd5 fun _ _ => Vector.replicate 16 0}

theorem commands_read_noted :
    linesOf (((said (sendTheMail postOffice hashed).2.log).filter (!·.writes)).flatMap Command.bytes) =
      (((said (sendTheMail postOffice hashed).2.log).filter (!·.writes)).map Command.text,[]) := by
  have addresses : ∀ address, some address ∈ hashed.addresses → 10 ∉ address := by
    intro address member
    obtain rfl : address = ascii "b@there" := by simpa [hashed,noted] using member
    decide +kernel
  exact (commands_read postOffice hashed _ rfl ⟨by decide +kernel,by decide +kernel,addresses,by decide +kernel⟩).mpr
    (by decide +kernel)

def Command.credential? : Command → Option (List UInt8)
  | credential _ text => some text
  | _ => none

/-- What the mechanisms let the server know. -/
def secrets (settings : Settings) (answer : List UInt8) : Mechanism → List (List UInt8)
  | .cramMd5 => [answer]
  | .login => [settings.username,settings.userpass]
  | .plain => [0::settings.username ++ 0::settings.userpass]

theorem secrets_text {text : List UInt8} {mechanism : Mechanism} {answer : List UInt8}
    (answers : mechanism = .cramMd5 → mutilsDecodeBase64 text = .ok answer) :
    (((dialogue settings text mechanism).map Prod.fst).filterMap Command.credential?).map mutilsDecodeBase64 =
      (secrets settings answer mechanism).map .ok := by
  cases mechanism with
  | cramMd5 => exact congrArg (fun decoded => [decoded]) (answers rfl)
  | login =>
    exact congrArg₂ (fun user pass => [user,pass]) (encodeNoformat_decodes settings.username)
      (encodeNoformat_decodes settings.userpass)
  | plain => exact congrArg (fun decoded => [decoded]) (encodeNoformat_decodes (0::settings.username ++ 0::settings.userpass))

/-- The credentials that go out decode, in order, to what one mechanism says; the answer to a challenge
is made from what the challenge decodes to. -/
theorem credentials_decode (hmacMd5 : List UInt8 → List UInt8 → Vector UInt8 16)
    (uses : settings.encodeCramMd5 = encodeCramMd5 hmacMd5) : ∃ mechanism answer,
    ((said (sendTheMail server settings).2.log).filterMap Command.credential?).map mutilsDecodeBase64 <+:
      (secrets settings answer mechanism).map .ok ∧
    (mechanism = .cramMd5 → ∃ tls reply data, .heard tls (some reply) ∈ (sendTheMail server settings).2.log ∧
      reply.code = 334 ∧ mutilsDecodeBase64 reply.line = .ok data ∧
      answer = snprintf (settings.username ++ ascii " " ++ hex (hmacMd5 settings.userpass data).toList)) := by
  have none {commands : List Command} (silent : ∀ command ∈ commands, command.credential? = none) :
      commands.filterMap Command.credential? = [] := List.filterMap_eq_nil_iff.mpr silent
  obtain same | ⟨ready,turns,events,_,_,_,conversation,holds,_,log⟩ := sendTheMail_conversation server settings
  · rw [same]
    exact ⟨.plain,[],List.nil_prefix,by simp⟩
  have before : (said ready.log).filterMap Command.credential? = [] := by
    refine none fun command member => ?_
    have opens := (holds.opens command member).1
    cases command <;> simp_all [Session.Opens,Command.credential?]
  have after : (said events).filterMap Command.credential? = [] := by
    refine none fun command member => ?_
    have transacts := conversation.transacts command member
    cases command <;> simp_all [Command.Transacts,Command.credential?]
  rw [log,said_append,said_append,said_spoken,List.filterMap_append,List.filterMap_append,before,after,List.nil_append,
    List.append_nil]
  obtain rfl | ⟨mechanism,rc,result,tried⟩ := conversation.tried
  · exact ⟨.plain,[],List.nil_prefix,by simp⟩
  obtain asked | ⟨text,begun,answers⟩ := tried.follows
  · rw [none fun command member => asked command member ▸ rfl]
    exact ⟨.plain,[],List.nil_prefix,by simp⟩
  have shorter := (begun.filterMap Command.credential?).map mutilsDecodeBase64
  by_cases cram : mechanism = .cramMd5
  · obtain ⟨reply,asked,code,answered⟩ := answers cram
    rw [uses] at answered
    obtain ⟨data,decoded,rfl⟩ := encodeCramMd5_text answered
    refine ⟨mechanism,_,?_,fun _ => ⟨ready.ssl,reply,data,?_,code,decoded,rfl⟩⟩
    · rwa [secrets_text settings fun _ => encodeNoformat_decodes _] at shorter
    · have heard : Event.heard ready.ssl (some reply) ∈ spoken ready.ssl turns :=
        List.mem_flatMap.mpr ⟨_,asked,by simp⟩
      simp [heard]
  · refine ⟨mechanism,[],?_,fun same => absurd same cram⟩
    rwa [secrets_text settings fun same => absurd same cram] at shorter

theorem credentials_decode_noted : ∃ mechanism answer,
    ((said (sendTheMail postOffice hashed).2.log).filterMap Command.credential?).map mutilsDecodeBase64 <+:
      (secrets hashed answer mechanism).map .ok ∧
    (mechanism = .cramMd5 → ∃ tls reply data, .heard tls (some reply) ∈ (sendTheMail postOffice hashed).2.log ∧
      reply.code = 334 ∧ mutilsDecodeBase64 reply.line = .ok data ∧
      answer = snprintf (hashed.username ++ ascii " " ++ hex (Vector.replicate 16 0).toList)) :=
  credentials_decode postOffice hashed (fun _ _ => Vector.replicate 16 0) rfl

end Whole
end Libsme.Mailsend
