import Libsme.Mailsend.Conversation

/-! What holds of every session of send_the_mail, whatever the server does. -/
namespace Libsme.Mailsend
open Script
open Semantics.Rfc4648 (ascii)
open Semantics.Rfc5321 (crlf dot stream receiveData)

def Event.command? : Event → Option Command
  | .sent _ command => some command
  | _ => none

def said (log : List Event) : List Command := log.filterMap Event.command?

@[simp] theorem said_nil : said [] = [] := rfl

@[simp] theorem said_append (log more : List Event) : said (log ++ more) = said log ++ said more := List.filterMap_append

@[simp] theorem said_spoken (tls : Bool) (turns : List (Command × Option Reply)) :
    said (spoken tls turns) = turns.map Prod.fst := by
  induction turns with
  | nil => rfl
  | cons turn turns ih =>
    rw [spoken,List.flatMap_cons,said_append,List.map_cons]
    exact congrArg (turn.1::·) ih

@[simp] theorem said_contents (tls : Bool) (parts : List (List UInt8)) : said (contents tls parts) = parts.map .content := by
  rw [said,contents,List.filterMap_map]
  exact congrFun (@List.filterMap_eq_map _ _ Command.content) parts

@[simp] theorem said_heard (tls : Bool) (replies : List (Option Reply)) : said (replies.map (.heard tls)) = [] := by
  rw [said,List.filterMap_map]
  exact List.filterMap_eq_nil_iff.mpr fun _ _ => rfl

theorem mem_said {log : List Event} {command : Command} : command ∈ said log ↔ ∃ tls, .sent tls command ∈ log := by
  rw [said,List.mem_filterMap]
  constructor
  · rintro ⟨event,member,same⟩
    cases event with
    | sent tls other => exact ⟨tls,Option.some.inj same ▸ member⟩
    | connected => exact absurd same (by simp [Event.command?])
    | handshake => exact absurd same (by simp [Event.command?])
    | heard => exact absurd same (by simp [Event.command?])
  · rintro ⟨tls,member⟩
    exact ⟨_,member,rfl⟩

/-- The commands of a mail transaction. -/
def Command.Transacts : Command → Prop
  | hello _ _ => False
  | startTls => False
  | auth _ => False
  | credential _ _ => False
  | _ => True

def Command.Authenticates : Command → Prop
  | auth _ => True
  | credential _ _ => True
  | _ => False

/-- The commands up to DATA. -/
def Command.Envelopes (settings : Settings) (sender : List UInt8) : Command → Prop
  | mailFrom named => named = sender
  | rcptTo address notify => some address ∈ settings.addresses ∧ notify = settings.notifyRcpt
  | data => True
  | _ => False

theorem Command.Envelopes.transacts {settings : Settings} {sender : List UInt8} {command : Command}
    (envelopes : command.Envelopes settings sender) {rc : Int} :
    command.Transacts ∧ (command = .quit → rc = 0) := by
  cases command <;> simp_all [Command.Envelopes,Command.Transacts]

theorem dialogue_authenticates {settings : Settings} {text : List UInt8} {mechanism : Mechanism} :
    ∀ command ∈ (dialogue settings text mechanism).map Prod.fst, command.Authenticates := by
  cases mechanism <;> simp [dialogue,Command.Authenticates]

theorem Session.Tried.authenticates {settings : Settings} {rc : Int} {mechanism : Mechanism}
    {turns : List (Command × Option Reply)} {result : Option Int} (tried : Session.Tried settings rc mechanism turns result) :
    ∀ command ∈ turns.map Prod.fst, command.Authenticates := by
  cases tried with
  | incomplete => simp
  | unsupported => simp
  | refused refused => exact fun command member => dialogue_authenticates command (refused.requests.subset member)
  | unanswered => simp [Command.Authenticates]
  | accepted accepted => exact fun command member => dialogue_authenticates command (accepted.requests ▸ member)

theorem Ready.opens {settings : Settings} {ready : Session} (holds : Ready settings ready) :
    ∀ command ∈ said ready.log, Session.Greets settings command := by
  intro command member
  obtain ⟨tls,inside⟩ := mem_said.mp member
  exact holds.begins _ inside

section Courses
variable {settings : Settings} {sender : List UInt8} {tls : Bool} {events : List Event} {rc : Int}

theorem envelope_commands {addresses : List (List UInt8)} (given : ∀ address ∈ addresses, some address ∈ settings.addresses) :
    ∀ command ∈ (envelope sender settings.notifyRcpt addresses).map Prod.fst, command.Envelopes settings sender := by
  intro command member
  simp only [envelope,beginning,recipients,List.map_append,List.map_cons,List.map_nil,List.map_map,List.mem_append,
    List.mem_singleton,List.mem_map,Function.comp_apply] at member
  rcases member with (rfl | ⟨address,inside,rfl⟩) | rfl
  · exact rfl
  · exact ⟨given address inside,rfl⟩
  · trivial

theorem turns_envelope {addresses : List (List UInt8)} {turns : List (Command × Option Reply)}
    (given : ∀ address ∈ addresses, some address ∈ settings.addresses)
    (begun : turns.map Prod.fst <+: (envelope sender settings.notifyRcpt addresses).map Prod.fst) :
    ∀ command ∈ turns.map Prod.fst, command.Envelopes settings sender :=
  fun command member => envelope_commands given command (begun.subset member)

theorem mem_given {addresses : List (List UInt8)} (given : addresses.map some <+: settings.addresses) :
    ∀ address ∈ addresses, some address ∈ settings.addresses :=
  fun _ member => given.subset (List.mem_map_of_mem member)

/-- A course that does not end the message says only the envelope and the message; else these are followed
by the end, and by the goodbye if it delivers. -/
theorem Course.said_cases (course : Course settings sender tls events rc) :
    (∀ command ∈ said events, command.Envelopes settings sender ∨ command = .reset ∨
      settings.mail.smtpMail.2 ≠ 0 ∧ ∃ part ∈ settings.mail.smtpMail.1, command = .content part) ∨
    ∃ before goodbye, said events =
        before ++ .data::(settings.mail.smtpMail.1.map Command.content ++ .eom::goodbye) ∧
      (∀ command ∈ before, command.Envelopes settings sender ∧ command ≠ .data) ∧ (goodbye = [] ∨ goodbye = [.quit] ∧ rc = 0) := by
  have named {commands : List Command} (envelopes : ∀ command ∈ commands, command.Envelopes settings sender) :
      ∀ command ∈ commands, command.Envelopes settings sender ∨ command = .reset ∨
        settings.mail.smtpMail.2 ≠ 0 ∧ ∃ part ∈ settings.mail.smtpMail.1, command = .content part :=
    fun command member => Or.inl (envelopes command member)
  have whole {addresses : List (List UInt8)} {turns : List (Command × Option Reply)}
      (given : addresses.map some = settings.addresses)
      (accepted : Completed (envelope sender settings.notifyRcpt addresses) turns) : ∃ before,
      turns.map Prod.fst = before ++ [.data] ∧ ∀ command ∈ before, command.Envelopes settings sender ∧ command ≠ .data := by
    refine ⟨(beginning sender ++ recipients settings.notifyRcpt addresses).map Prod.fst,?_,?_⟩
    · rw [accepted.requests,envelope,List.map_append]
      rfl
    · have inside := mem_given (by rw [given])
      simpa [beginning,recipients,Command.Envelopes] using inside
  cases course with
  | @unwelcome turns refused =>
    left
    rw [said_spoken]
    exact named (@turns_envelope settings sender [] turns (by simp) (refused.append [(.data,NotRefused 354)]).requests)
  | refused given welcome refused =>
    left
    rw [said_spoken,← List.append_assoc,List.map_append]
    refine List.forall_mem_append.mpr ⟨named (turns_envelope (mem_given given)
      ((welcome.refused refused).append [(.data,NotRefused 354)]).requests),?_⟩
    simp
  | @missing addresses turns given accepted =>
    left
    rw [said_spoken]
    have begun : turns.map Prod.fst <+: (envelope sender settings.notifyRcpt addresses).map Prod.fst := by
      rw [accepted.requests,envelope]
      exact (List.prefix_append _ _).map _
    exact named (turns_envelope (mem_given ((List.prefix_append _ _).trans given)) begun)
  | noData given refused asked =>
    left
    rw [said_spoken]
    exact named (turns_envelope (mem_given (by rw [given])) refused.requests)
  | broken given accepted failed =>
    left
    rw [said_append,said_spoken,said_contents]
    refine List.forall_mem_append.mpr ⟨named (turns_envelope (mem_given (by rw [given])) (by rw [accepted.requests])),?_⟩
    intro command member
    obtain ⟨part,inside,rfl⟩ := List.mem_map.mp member
    exact Or.inr (Or.inr ⟨failed,part,inside,rfl⟩)
  | rejected given accepted complete rejected more =>
    obtain ⟨before,requests,envelopes⟩ := whole given accepted
    refine Or.inr ⟨before,[],?_,envelopes,Or.inl rfl⟩
    rw [said_append,said_append,said_append,said_spoken,said_contents,said_spoken,said_heard,requests]
    simp
  | delivered given accepted complete taken =>
    obtain ⟨before,requests,envelopes⟩ := whole given accepted
    refine Or.inr ⟨before,[.quit],?_,envelopes,Or.inr ⟨rfl,rfl⟩⟩
    rw [said_append,said_append,said_spoken,said_contents,said_spoken,requests]
    simp

theorem Course.commands (course : Course settings sender tls events rc) :
    ∀ command ∈ said events, command.Transacts ∧ (command = .quit → rc = 0) := by
  intro command member
  obtain unfinished | ⟨before,goodbye,commands,envelopes,last⟩ := course.said_cases
  · obtain envelopes | rfl | ⟨_,part,_,rfl⟩ := unfinished command member
    · exact envelopes.transacts
    · exact ⟨trivial,fun never => absurd never (by simp)⟩
    · exact ⟨trivial,fun never => absurd never (by simp)⟩
  · rw [commands,List.mem_append,List.mem_cons,List.mem_append,List.mem_cons] at member
    rcases member with early | rfl | content | rfl | late
    · exact (envelopes command early).1.transacts
    · exact ⟨trivial,fun never => absurd never (by simp)⟩
    · obtain ⟨part,_,rfl⟩ := List.mem_map.mp content
      exact ⟨trivial,fun never => absurd never (by simp)⟩
    · exact ⟨trivial,fun never => absurd never (by simp)⟩
    · obtain rfl | ⟨rfl,zero⟩ := last
      · exact absurd late List.not_mem_nil
      · exact ⟨List.mem_singleton.mp late ▸ trivial,fun _ => zero⟩

theorem spoken_tls (turns : List (Command × Option Reply)) : ∀ event ∈ spoken tls turns, event.tls = some tls := by
  intro event member
  obtain ⟨turn,_,inside⟩ := List.mem_flatMap.mp member
  rcases List.mem_pair.mp inside with rfl | rfl <;> rfl

theorem contents_tls (parts : List (List UInt8)) : ∀ event ∈ contents tls parts, event.tls = some tls := by
  intro event member
  obtain ⟨part,_,rfl⟩ := List.mem_map.mp member
  rfl

theorem Course.told (course : Course settings sender tls events rc) : ∀ event ∈ events, event.tls = some tls := by
  cases course with
  | unwelcome => exact spoken_tls _
  | refused => exact spoken_tls _
  | missing => exact spoken_tls _
  | noData => exact spoken_tls _
  | broken => exact List.forall_mem_append.mpr ⟨spoken_tls _,contents_tls _⟩
  | rejected given accepted whole rejected more =>
    have heard : ∀ event ∈ more.map (Event.heard tls), event.tls = some tls := by
      intro event member
      obtain ⟨reply,_,rfl⟩ := List.mem_map.mp member
      rfl
    exact List.forall_mem_append.mpr ⟨List.forall_mem_append.mpr
      ⟨List.forall_mem_append.mpr ⟨spoken_tls _,contents_tls _⟩,spoken_tls _⟩,heard⟩
  | delivered =>
    exact List.forall_mem_append.mpr ⟨List.forall_mem_append.mpr ⟨spoken_tls _,contents_tls _⟩,spoken_tls _⟩

theorem Coherent.extend {log events : List Event} (coherent : Coherent log)
    (same : ∀ event ∈ events, event.tls = some (secured log)) : Coherent (log ++ events) := by
  induction events generalizing log with
  | nil => simpa using coherent
  | cons event events ih =>
    obtain ⟨here,later⟩ := List.forall_mem_cons.mp same
    have kept : secured (log ++ [event]) = secured log := by
      cases event with
      | sent => simp [secured]
      | heard => simp [secured]
      | connected => exact absurd here (by simp [Event.tls])
      | handshake => exact absurd here (by simp [Event.tls])
    have next : Coherent (log ++ [event]) := History.Each.concat coherent fun tls told => by
      rw [here] at told
      exact (Option.some.inj told).symm
    have whole := ih next (by rw [kept]; exact later)
    rwa [List.append_assoc] at whole

theorem Course.zero_iff (course : Course settings sender tls events rc) : rc = 0 ↔
    ∃ front reply goodbye, events = front ++ spoken tls [(.eom,reply),(.quit,goodbye)] ∧ codeOf reply = 250 := by
  constructor
  · intro zero
    cases course with
    | delivered given accepted complete taken => exact ⟨_,_,_,rfl,taken⟩
    | broken given accepted failed => exact absurd zero failed
    | unwelcome => exact absurd zero (by decide)
    | refused => exact absurd zero (by decide)
    | missing => exact absurd zero (by decide)
    | noData => exact absurd zero (by decide)
    | rejected => exact absurd zero (by decide)
  · rintro ⟨front,reply,goodbye,rfl,_⟩
    exact (course.commands .quit (by simp)).2 rfl

end Courses

section Conversations
variable {settings : Settings} {ready : Session} {outcome : Outcome} {turns : List (Command × Option Reply)} {events : List Event}

theorem Conversation.tried (conversation : Conversation settings ready outcome turns events) : turns = [] ∨
    ∃ mechanism rc result, Session.Tried settings rc mechanism turns result := by
  cases conversation with
  | unwelcome => exact Or.inl rfl
  | unmatched => exact Or.inl rfl
  | unauthenticated => exact Or.inl rfl
  | left _ tried => exact Or.inr ⟨_,_,_,tried⟩
  | authenticated _ tried => exact Or.inr ⟨_,_,_,tried⟩

theorem Conversation.authenticates (conversation : Conversation settings ready outcome turns events) :
    ∀ command ∈ turns.map Prod.fst, command.Authenticates := by
  obtain rfl | ⟨_,_,_,tried⟩ := conversation.tried
  · simp
  · exact tried.authenticates

theorem Conversation.course (conversation : Conversation settings ready outcome turns events) : events = [] ∨
    ∃ sender rc, settings.letter.sender = some sender ∧ outcome = .returned rc ∧ Course settings sender ready.ssl events rc := by
  cases conversation with
  | unwelcome => exact Or.inl rfl
  | unmatched => exact Or.inl rfl
  | left => exact Or.inl rfl
  | unauthenticated _ given course => exact Or.inr ⟨_,_,given,rfl,course⟩
  | authenticated _ _ given course => exact Or.inr ⟨_,_,given,rfl,course⟩

theorem Conversation.transacts (conversation : Conversation settings ready outcome turns events) :
    ∀ command ∈ said events, command.Transacts := by
  obtain rfl | ⟨_,_,_,_,course⟩ := conversation.course
  · exact fun _ member => absurd member List.not_mem_nil
  · exact fun command member => (course.commands command member).1

theorem Conversation.told (conversation : Conversation settings ready outcome turns events) :
    ∀ event ∈ spoken ready.ssl turns ++ events, event.tls = some ready.ssl := by
  refine List.forall_mem_append.mpr ⟨spoken_tls _,?_⟩
  obtain rfl | ⟨_,_,_,_,course⟩ := conversation.course
  · exact fun _ member => absurd member List.not_mem_nil
  · exact course.told

end Conversations

/-- What it sends after what happened. -/
def postLines (log : List Event) : List (List UInt8) :=
  match log.getLast? with
  | some .connected => [ascii "220 ready"]
  | some (.sent _ (.hello _ _)) => [ascii "250-here",ascii "250 AUTH PLAIN"]
  | some (.sent _ .data) => [ascii "354 go on"]
  | some (.sent _ (.credential _ _)) => [ascii "235 welcome"]
  | some (.sent _ (.content _)) => []
  | some (.sent _ _) => [ascii "250 fine"]
  | _ => []

def postOffice : Server := ⟨fun log => (postLines log).flatMap fun line => (line ++ [10]).map some,fun _ => true⟩

def note : Letter :=
  { subject := none
    fromName := []
    sender := some (ascii "a@here")
    date := none
    recipient := some (ascii "b@there")
    cc := none
    replyTo := none
    returnReceipt := none
    customHeaders := [ascii "X-Test: 1"]
    mime := none
    bodyGiven := false
    stdin := ascii "hello\n.\n"
    text := by decide }

def noted : Settings :=
  { openssl := false
    sslInitialized := false
    encodeCramMd5 := fun _ _ _ => none
    connects := true
    heloDomain := some (ascii "here")
    addresses := [some (ascii "b@there")]
    notifyRcpt := none
    doSsl := false
    doStarttls := false
    doAuth := true
    authCramMd5 := false
    authLogin := false
    authPlain := true
    quiet := false
    esmtp := true
    username := ascii "a"
    userpass := ascii "b"
    letter := note }

section Whole
variable (server : Server) (settings : Settings)

/-- A mail transaction is the last thing in a session, and takes one of the courses. -/
theorem transaction_takes_course : ∃ before course, (sendTheMail server settings).2.log = before ++ course ∧
    (∀ command ∈ said before, ¬command.Transacts) ∧
    (course = [] ∨ ∃ sender tls rc, settings.letter.sender = some sender ∧
      (sendTheMail server settings).1 = .returned rc ∧ Course settings sender tls course rc) := by
  have apart {command : Command} (opens : Session.Opens command) : ¬command.Transacts := by
    cases command <;> simp_all [Session.Opens,Command.Transacts]
  have other {command : Command} (authenticates : command.Authenticates) : ¬command.Transacts := by
    cases command <;> simp_all [Command.Authenticates,Command.Transacts]
  obtain same | ⟨ready,turns,events,_,_,_,conversation,holds,_,log⟩ := sendTheMail_conversation server settings
  · rw [same]
    exact ⟨[],[],rfl,by simp [said],Or.inl rfl⟩
  · generalize (sendTheMail server settings).1 = outcome at conversation ⊢
    refine ⟨ready.log ++ spoken ready.ssl turns,events,by rw [log,List.append_assoc],?_,?_⟩
    · rw [said_append,said_spoken]
      exact List.forall_mem_append.mpr ⟨fun command member => apart (holds.opens command member).1,
        fun command member => other (conversation.authenticates command member)⟩
    · obtain none | ⟨sender,rc,course⟩ := conversation.course
      · exact Or.inl none
      · exact Or.inr ⟨sender,_,rc,course⟩

/-- What is sent of a letter after DATA. -/
def Letter.written (letter : Letter) : List Command := letter.smtpMail.1.map .content ++ [.eom]

/-- Where any of the message was sent, all of it was, and a receiver gets it as it was given with an empty line
at its end just when no custom header begins with a dot. -/
theorem message_received (sound : settings.mail.Sound) :
    (∀ command ∈ said (sendTheMail server settings).2.log, command ≠ .eom ∧ ∀ part, command ≠ .content part) ∨
    ∃ before goodbye, said (sendTheMail server settings).2.log = before ++ .data::(settings.mail.written ++ goodbye) ∧
      .data ∉ before ∧ (goodbye = [] ∨ goodbye = [.quit]) ∧
      (receiveData ((settings.mail.written ++ goodbye).flatMap Command.bytes) =
          some (stream settings.mail.lines ++ crlf,goodbye.flatMap Command.bytes) ↔
        ∀ header ∈ settings.letter.customHeaders, header.head? ≠ some dot) := by
  have opens {command : Command} (opens : Session.Opens command) :
      command ≠ .data ∧ command ≠ .eom ∧ ∀ part, command ≠ .content part := by
    cases command <;> simp_all [Session.Opens]
  have authenticates {command : Command} (authenticates : command.Authenticates) :
      command ≠ .data ∧ command ≠ .eom ∧ ∀ part, command ≠ .content part := by
    cases command <;> simp_all [Command.Authenticates]
  have envelopes {sender : List UInt8} {command : Command} (envelopes : command.Envelopes settings sender) :
      command ≠ .eom ∧ ∀ part, command ≠ .content part := by
    cases command <;> simp_all [Command.Envelopes]
  obtain same | ⟨ready,turns,events,_,_,_,conversation,holds,_,log⟩ := sendTheMail_conversation server settings
  · rw [same]
    exact Or.inl fun _ member => absurd member List.not_mem_nil
  have early : ∀ command ∈ said ready.log ++ turns.map Prod.fst,
      command ≠ .data ∧ command ≠ .eom ∧ ∀ part, command ≠ .content part :=
    List.forall_mem_append.mpr ⟨fun command member => opens (holds.opens command member).1,
      fun command member => authenticates (conversation.authenticates command member)⟩
  rw [log,said_append,said_append,said_spoken,← List.append_assoc]
  have course := conversation.course
  generalize (sendTheMail server settings).1 = outcome at course
  obtain rfl | ⟨sender,rc,_,_,course⟩ := course
  · rw [said_nil,List.append_nil]
    exact Or.inl fun command member => (early command member).2
  obtain unfinished | ⟨before,goodbye,commands,plain,last⟩ := course.said_cases
  · refine Or.inl (List.forall_mem_append.mpr ⟨fun command member => (early command member).2,?_⟩)
    intro command member
    obtain named | rfl | ⟨failed,_⟩ := unfinished command member
    · exact envelopes named
    · simp
    · exact absurd sound.smtpMail_eq.2 failed
  · refine Or.inr ⟨said ready.log ++ turns.map Prod.fst ++ before,goodbye,?_,?_,last.imp_right And.left,?_⟩
    · rw [commands,Letter.written]
      simp only [List.append_assoc,List.cons_append,List.nil_append]
    · rw [List.mem_append,not_or]
      exact ⟨fun member => (early _ member).1 rfl,fun member => (plain _ member).2 rfl⟩
    · have parts : (settings.mail.smtpMail.1.map Command.content).flatMap Command.bytes = settings.mail.smtpMail.1.flatten := by
        rw [List.flatMap_map]
        exact List.flatMap_id
      rw [Letter.written,List.flatMap_append,List.flatMap_append,parts]
      exact sound.received _

theorem message_received_noted : ∃ before goodbye,
    said (sendTheMail postOffice noted).2.log = before ++ .data::(noted.mail.written ++ goodbye) ∧
      .data ∉ before ∧ (goodbye = [] ∨ goodbye = [.quit]) ∧
      (receiveData ((noted.mail.written ++ goodbye).flatMap Command.bytes) =
          some (stream noted.mail.lines ++ crlf,goodbye.flatMap Command.bytes) ↔
        ∀ header ∈ noted.letter.customHeaders, header.head? ≠ some dot) := by
  have ended : .eom ∈ said (sendTheMail postOffice noted).2.log := by decide +kernel
  exact (message_received postOffice noted ⟨rfl,by decide +kernel,by decide +kernel,by decide +kernel⟩).resolve_left
    fun unfinished => (unfinished .eom ended).1 rfl

/-- The result of a build without OpenSSL that must use CRAM-MD5: that of the greeting. -/
def Silent (settings : Settings) (session : Session) : Prop :=
  settings.openssl = false ∧ Session.Chosen settings session .cramMd5 ∧ settings.username ≠ [] ∧ settings.userpass ≠ [] ∧
    wantsTls settings session = false

theorem chosen_caps {settings : Settings} {session other : Session} (same : session.serverCaps = other.serverCaps)
    (mechanism : Mechanism) : Session.Chosen settings session mechanism ↔ Session.Chosen settings other mechanism := by
  have eligible (mechanism : Mechanism) :
      Session.Eligible settings session mechanism ↔ Session.Eligible settings other mechanism := by
    constructor <;> rintro ⟨enabled,auth,offered⟩ <;> refine ⟨enabled,?_,?_⟩ <;>
      simp_all [Session.checkServerCap]
  constructor <;> rintro ⟨fits,first⟩ <;> refine ⟨?_,?_⟩ <;> simp_all

theorem Session.Chosen.unique {settings : Settings} {session : Session} {mechanism other : Mechanism}
    (chosen : Session.Chosen settings session mechanism) (alsoChosen : Session.Chosen settings session other) :
    mechanism = other := by
  have less := chosen.first other alsoChosen.eligible
  have more := alsoChosen.first mechanism chosen.eligible
  cases mechanism <;> cases other <;> simp_all [Mechanism.rank]

theorem silent_caps {settings : Settings} {session other : Session} (same : session.serverCaps = other.serverCaps) :
    Silent settings session ↔ Silent settings other := by
  simp only [Silent,chosen_caps same,wantsTls,Session.checkServerCap,same]

theorem Silent.offered {settings : Settings} {session : Session} (silent : Silent settings session) :
    session.serverCaps ≠ [] := by
  intro bare
  have auth := silent.2.1.eligible.auth
  rw [Session.checkServerCap,bare] at auth
  exact absurd auth (by decide)

/-- The result is 0 just when the message was accepted, or when nothing was sent for want of OpenSSL. -/
theorem zero_iff_accepted : (sendTheMail server settings).1 = .returned 0 ↔
    (∃ front tls reply goodbye, (sendTheMail server settings).2.log = front ++ spoken tls [(.eom,reply),(.quit,goodbye)] ∧
      codeOf reply = 250) ∨
    Silent settings (sendTheMail server settings).2 := by
  obtain same | ⟨ready,turns,events,_,_,_,conversation,holds,caps,log⟩ := sendTheMail_conversation server settings
  · rw [same]
    refine iff_of_false (by simp) ?_
    rintro (⟨front,tls,reply,goodbye,split,_⟩ | silent)
    · exact absurd split (by simp [initial,spoken])
    · exact silent.offered rfl
  rw [silent_caps caps]
  have quits : (∃ front tls reply goodbye, (sendTheMail server settings).2.log =
      front ++ spoken tls [(.eom,reply),(.quit,goodbye)] ∧ codeOf reply = 250) → .quit ∈ said ready.log ++ turns.map Prod.fst ++ said events := by
    rintro ⟨front,tls,reply,goodbye,split,_⟩
    have member : .quit ∈ said (sendTheMail server settings).2.log := by simp [split]
    rw [log,said_append,said_append,said_spoken,← List.append_assoc] at member
    exact member
  have opens : .quit ∉ said ready.log := fun member => (holds.opens _ member).1
  generalize (sendTheMail server settings).1 = outcome at conversation ⊢
  cases conversation with
  | unwelcome bare =>
    refine iff_of_false (by simp) ?_
    rintro (accepted | silent)
    · exact opens (by simpa [said] using quits accepted)
    · exact silent.offered bare
  | unmatched none =>
    refine iff_of_false (by simp) ?_
    rintro (accepted | silent)
    · exact opens (by simpa [said] using quits accepted)
    · exact none _ silent.2.1.eligible
  | @left rc mechanism turns result chosen tried opened =>
    have authenticates : .quit ∉ turns.map Prod.fst := fun member => tried.authenticates _ member
    constructor
    · intro zero
      obtain rfl : result = 0 := by simpa using zero
      cases tried with
      | unsupported absent cram named =>
        exact Or.inr ⟨absent,cram ▸ chosen,named.1,named.2,(opened.zero absent).mp rfl⟩
    · rintro (accepted | ⟨absent,cram,named,guarded,unwanted⟩)
      · rcases List.mem_append.mp (quits accepted) with early | late
        · exact absurd early (by rw [List.mem_append,not_or]; exact ⟨opens,authenticates⟩)
        · exact absurd late List.not_mem_nil
      · obtain rfl := chosen.unique cram
        cases tried with
        | incomplete missing => exact absurd missing (by simp [named,guarded])
        | unsupported _ _ _ => rw [(opened.zero absent).mpr unwanted]
        | refused _ _ supported => exact absurd (supported rfl) (by simp [absent])
        | unanswered _ supported => exact absurd supported (by simp [absent])
  | @unauthenticated sender rc events none given course =>
    constructor
    · intro zero
      obtain ⟨front,reply,goodbye,split,accepted⟩ := course.zero_iff.mp (by simpa using zero)
      exact Or.inl ⟨ready.log ++ front,ready.ssl,reply,goodbye,by rw [log,split]; simp [spoken],accepted⟩
    · rintro (accepted | silent)
      · have member : .quit ∈ said events := by simpa [opens] using quits accepted
        rw [(course.commands _ member).2 rfl]
      · exact absurd silent.2.1.eligible (none _)
  | @authenticated sender before rc mechanism turns events chosen tried given course =>
    have authenticates : .quit ∉ turns.map Prod.fst := fun member => tried.authenticates _ member
    constructor
    · intro zero
      obtain ⟨front,reply,goodbye,split,accepted⟩ := course.zero_iff.mp (by simpa using zero)
      exact Or.inl ⟨ready.log ++ spoken ready.ssl turns ++ front,ready.ssl,reply,goodbye,
        by rw [log,split]; simp only [List.append_assoc],accepted⟩
    · rintro (accepted | ⟨absent,cram,_⟩)
      · have member : .quit ∈ said events := by
          rcases List.mem_append.mp (quits accepted) with early | late
          · exact absurd early (by rw [List.mem_append,not_or]; exact ⟨opens,authenticates⟩)
          · exact late
        rw [(course.commands _ member).2 rfl]
      · obtain rfl := chosen.unique cram
        cases tried with
        | accepted _ _ supported => exact absurd (supported rfl) (by simp [absent])

theorem heard_of_cap {session : Session} {what : List UInt8} (heard : session.CapsHeard)
    (offered : (session.checkServerCap what).isSome) :
    ∃ cap, Advertised session.log cap ∧ (mutilsStristr cap what).isSome := by
  obtain ⟨cap,found⟩ := Option.isSome_iff_exists.mp offered
  exact ⟨cap,heard cap (List.mem_of_find?_eq_some found),
    @List.find?_some _ (fun cap => (mutilsStristr cap what).isSome) _ _ found⟩

/-- Credentials go only to a server that advertised AUTH and the mechanism in an answer to a hello,
by the first enabled mechanism, in its dialogue, and nothing is sent after it failed. -/
theorem credentials_asked_for : ∃ before tls turns rest, (sendTheMail server settings).2.log =
      before ++ spoken tls turns ++ rest ∧ (∀ command ∈ said (before ++ rest), ¬command.Authenticates) ∧
    (turns = [] ∨ ∃ mechanism rc result, settings.enabled mechanism = true ∧
      (∃ cap, Advertised before cap ∧ (mutilsStristr cap (ascii "AUTH")).isSome) ∧
      (∃ cap, Advertised before cap ∧ (mutilsStristr cap mechanism.name).isSome) ∧
      Session.Tried settings rc mechanism turns result ∧
      (∀ failed ∈ result, rest = [] ∧ (sendTheMail server settings).1 = .returned failed)) := by
  have opens {command : Command} (opens : Session.Opens command) : ¬command.Authenticates := by
    cases command <;> simp_all [Session.Opens,Command.Authenticates]
  have mails {command : Command} (transacts : command.Transacts) : ¬command.Authenticates := by
    cases command <;> simp_all [Command.Authenticates,Command.Transacts]
  obtain same | ⟨ready,turns,events,_,_,_,conversation,holds,_,log⟩ := sendTheMail_conversation server settings
  · rw [same]
    exact ⟨[],false,[],[],rfl,by simp [said],Or.inl rfl⟩
  generalize (sendTheMail server settings).1 = outcome at conversation ⊢
  refine ⟨ready.log,ready.ssl,turns,events,by rw [log,List.append_assoc],?_,?_⟩
  · rw [said_append]
    exact List.forall_mem_append.mpr ⟨fun command member => opens (holds.opens command member).1,
      fun command member => mails (conversation.transacts command member)⟩
  · cases conversation with
    | unwelcome => exact Or.inl rfl
    | unmatched => exact Or.inl rfl
    | unauthenticated => exact Or.inl rfl
    | left chosen tried =>
      exact Or.inr ⟨_,_,_,chosen.eligible.enabled,heard_of_cap holds.caps chosen.eligible.auth,
        heard_of_cap holds.caps chosen.eligible.offered,tried,fun failed same => ⟨rfl,by rw [Option.some.inj same]⟩⟩
    | authenticated chosen tried =>
      exact Or.inr ⟨_,_,_,chosen.eligible.enabled,heard_of_cap holds.caps chosen.eligible.auth,
        heard_of_cap holds.caps chosen.eligible.offered,tried,fun failed never => absurd never (by simp)⟩

/-- What is said and heard is encrypted just when a handshake succeeded before, and none is made without
an SSL; where STARTTLS is asked for and a command of authentication or mail goes in the clear, the server
did not offer it or refused it, or there is no SSL. -/
theorem clear_after_refusal : Coherent (sendTheMail server settings).2.log ∧
    (∀ success, .handshake success ∈ (sendTheMail server settings).2.log → settings.Encrypts) ∧
    ∀ front command rest, (sendTheMail server settings).2.log = front ++ .sent false command::rest →
      ¬Session.Opens command → settings.openssl = true → settings.doStarttls = true →
        (((sendTheMail server settings).2.checkServerCap (ascii "STARTTLS")).isNone ∧
          ((sendTheMail server settings).2.checkServerCap (ascii "TLS")).isNone) ∨
        (∃ reply, codeOf reply ≠ 220 ∧ [.sent false .startTls,.heard false reply] <:+: front) ∨
        .handshake false ∈ front ∨ settings.sslInitialized = false := by
  obtain same | ⟨ready,turns,events,_,_,⟨start,domain,_,_,opened,goes⟩,conversation,holds,caps,log⟩ := sendTheMail_conversation server settings
  · rw [same]
    refine ⟨fun front event rest split => absurd split (by simp [initial]),fun _ member => absurd member List.not_mem_nil,?_⟩
    exact fun front command rest split => absurd split (by simp [initial])
  have told := conversation.told
  rw [log]
  refine ⟨holds.encrypts.coherent.extend (by rw [← holds.encrypts.ssl]; exact told),?_,?_⟩
  · intro success member
    rcases List.mem_append.mp member with early | late
    · exact holds.begins _ early
    · exact absurd (told _ late) (by simp [Event.tls])
  intro front command rest split later supported asked
  obtain ⟨middle,rfl,after⟩ : ∃ middle, front = ready.log ++ middle ∧
      spoken ready.ssl turns ++ events = middle ++ .sent false command::rest := by
    exact History.later split fun early => later (holds.begins _ early).1
  have clear : ready.ssl = false := by
    have here := told (.sent false command) (by rw [after]; simp)
    exact (Option.some.inj here).symm
  have spoke : turns ≠ [] ∨ events ≠ [] := by
    by_contra silent
    obtain ⟨rfl,rfl⟩ : turns = [] ∧ events = [] := by simpa [not_or] using silent
    exact absurd after (by simp [spoken])
  obtain ⟨rc,goes⟩ := goes spoke
  have refuses := Session.openSession_clear supported goes (opened ▸ clear)
  rw [← opened] at refuses
  obtain unwanted | bare | ⟨reply,refused,inside⟩ | failed := refuses
  · left
    rw [Session.checkServerCap,Session.checkServerCap,caps]
    rw [wantsTls,asked,Bool.true_and,Bool.or_eq_false_iff] at unwanted
    exact ⟨by rw [← Option.not_isSome]; exact Bool.not_eq_true' _ ▸ unwanted.1,by
      rw [← Option.not_isSome]; exact Bool.not_eq_true' _ ▸ unwanted.2⟩
  · exact Or.inr (Or.inr (Or.inr bare))
  · exact Or.inr (Or.inl ⟨reply,refused,inside.trans (List.prefix_append _ _).isInfix⟩)
  · exact Or.inr (Or.inr (Or.inl (List.mem_append_left _ failed)))

end Whole
end Libsme.Mailsend
