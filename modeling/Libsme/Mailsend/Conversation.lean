import Libsme.Mailsend.Opening

/-! Whole sessions of send_the_mail against any server: the order of what is said, when the
result is 0, to whom the credentials go and what is encrypted. -/
namespace Libsme.Mailsend
open Script
open Semantics.Rfc4648 (ascii)

/-- Whether STARTTLS is tried after the hello. -/
def wantsTls (settings : Settings) (session : Session) : Bool :=
  settings.doStarttls && ((session.checkServerCap (ascii "STARTTLS")).isSome || (session.checkServerCap (ascii "TLS")).isSome)

/-- What the opening leaves in `rc`. -/
structure Opened (settings : Settings) (ready : Session) (rc : Int) : Prop where
  either : rc = 0 ∨ rc = -1
  zero : settings.openssl = false → (rc = 0 ↔ wantsTls settings ready = false)

/-- How a session goes on after its opening, which left it as `ready`. -/
inductive Conversation (settings : Settings) (ready : Session) :
    Outcome → List (Command × Option Reply) → List Event → Prop
  | unwelcome (bare : ready.serverCaps = []) : Conversation settings ready (.returned (-1)) [] []
  | unmatched (none : ∀ mechanism, ¬Session.Eligible settings ready mechanism) : Conversation settings ready .exited [] []
  | left {rc mechanism turns result} (chosen : Session.Chosen settings ready mechanism)
      (tried : Session.Tried settings rc mechanism turns (some result)) (opened : Opened settings ready rc) :
      Conversation settings ready (.returned result) turns []
  | unauthenticated {sender rc events} (none : ∀ mechanism, ¬Session.Eligible settings ready mechanism)
      (given : settings.letter.sender = some sender) (course : Course settings sender ready.ssl events rc) :
      Conversation settings ready (.returned rc) [] events
  | authenticated {sender before rc mechanism turns events} (chosen : Session.Chosen settings ready mechanism)
      (tried : Session.Tried settings before mechanism turns none) (given : settings.letter.sender = some sender)
      (course : Course settings sender ready.ssl events rc) : Conversation settings ready (.returned rc) turns events

namespace Session
variable {server : Server} {settings : Settings} {session : Session}

theorem readSmtpLine_rc : session.readSmtpLine.1 = 0 ∨ session.readSmtpLine.1 = -1 := by
  obtain ⟨reply,_,rc,_,_⟩ := @readSmtpLine_reply session
  rw [rc]
  split
  · exact Or.inr rfl
  · exact Or.inl rfl

theorem greetingLines_rc (left : Nat) (session : Session) :
    (greetingLines left session).1 = 0 ∨ (greetingLines left session).1 = -1 := by
  induction left generalizing session with
  | zero => exact Or.inr rfl
  | succ left ih =>
    have first := @readSmtpLine_rc session
    unfold greetingLines
    generalize session.readSmtpLine = read at first ⊢
    obtain ⟨rc,next⟩ := read
    dsimp only at first ⊢
    split
    · exact first
    · split
      · exact Or.inr rfl
      · split
        · exact first
        · exact ih _

theorem readGreetings_rc : (session.readGreetings settings).1 = 0 ∨ (session.readGreetings settings).1 = -1 := by
  have first := @readSmtpLine_rc session
  unfold readGreetings
  generalize session.readSmtpLine = read at first ⊢
  obtain ⟨rc,next⟩ := read
  dsimp only at first ⊢
  split
  · exact first
  · split
    · exact Or.inr rfl
    · split
      · exact greetingLines_rc 100 _
      · exact first

theorem smtpStartTls_rc : ((session.smtpStartTls server settings).1 = 0 ∧ settings.openssl = true) ∨
    (session.smtpStartTls server settings).1 = -1 := by
  unfold smtpStartTls
  generalize session.exchange server .startTls = answered
  obtain ⟨_,next⟩ := answered
  dsimp only
  split
  · exact Or.inr rfl
  · split
    · rename_i supported
      split
      · split
        · exact Or.inl ⟨rfl,supported⟩
        · exact Or.inr rfl
      · exact Or.inr rfl
    · exact Or.inr rfl

theorem openSession_rc {domain : List UInt8} : ((session.openSession server settings domain).1 = .error (-1) ∧
      (session.openSession server settings domain).2.serverCaps = session.serverCaps) ∨
    ∃ rc, (session.openSession server settings domain).1 = .ok rc ∧
      Opened settings (session.openSession server settings domain).2 rc := by
  have first := @readGreetings_rc settings session
  have bare := (@readGreetings_runs server settings .listening session).caps id
  unfold openSession
  generalize session.readGreetings settings = greeted at first bare ⊢
  obtain ⟨rc,next⟩ := greeted
  dsimp only at first bare ⊢
  obtain rfl | rfl := first
  swap
  · exact Or.inl ⟨rfl,bare⟩
  rw [if_neg (by decide)]
  generalize next.sayHelo server domain = saluted
  obtain ⟨_,ready⟩ := saluted
  dsimp only
  right
  split
  · rename_i wanted
    have runs := @smtpStartTls_runs server settings ⟨fun _ => True,True,False⟩ ready trivial fun _ => trivial
    have caps := runs.caps id
    have rc := @smtpStartTls_rc server settings ready
    generalize ready.smtpStartTls server settings = started at caps rc ⊢
    obtain ⟨rc',secured⟩ := started
    dsimp only at caps rc ⊢
    obtain ⟨rfl,supported⟩ | rfl := rc
    · exact ⟨0,rfl,⟨Or.inl rfl,fun unsupported => absurd supported (by rw [unsupported]; decide)⟩⟩
    · refine ⟨-1,rfl,⟨Or.inr rfl,fun _ => iff_of_false (by decide) ?_⟩⟩
      rw [if_neg (by decide),wantsTls,checkServerCap,checkServerCap,caps]
      exact fun off => Bool.false_ne_true (off.symm.trans wanted)
  · rename_i unwanted
    exact ⟨0,rfl,⟨Or.inl rfl,fun _ => iff_of_true rfl (by simpa [wantsTls] using unwanted)⟩⟩

theorem converse_conversation {sender domain : List UInt8} (given : settings.letter.sender = some sender)
    (bare : session.serverCaps = []) : ∃ turns events,
    Runs server .free (session.openSession server settings domain).2 (session.converse server settings sender domain).2 ∧
    ((∃ rc, (session.openSession server settings domain).1 = .ok rc) ∨ turns = [] ∧ events = []) ∧
    Conversation settings (session.openSession server settings domain).2
      (session.converse server settings sender domain).1 turns events ∧
    (session.converse server settings sender domain).2.serverCaps =
      (session.openSession server settings domain).2.serverCaps ∧
    (session.converse server settings sender domain).2.log = (session.openSession server settings domain).2.log ++
      (spoken (session.openSession server settings domain).2.ssl turns ++ events) := by
  have opened := @openSession_rc server settings session domain
  unfold converse
  generalize session.openSession server settings domain = started at opened ⊢
  obtain ⟨_,ready⟩ := started
  dsimp only at opened ⊢
  obtain ⟨rfl,same⟩ | ⟨rc,rfl,opened⟩ := opened
  · exact ⟨[],[],Runs.refl,Or.inr ⟨rfl,rfl⟩,.unwelcome (same.trans bare),rfl,(List.append_nil _).symm⟩
  dsimp only
  have course := @authenticate_course server settings ready rc
  generalize ready.authenticate server settings rc = answered at course ⊢
  obtain ⟨decision,next⟩ := answered
  dsimp only at course ⊢
  obtain ⟨none,rfl,rfl | rfl⟩ | ⟨mechanism,turns,result,chosen,tried,spoke,rfl⟩ := course
  · obtain ⟨runs,caps,events,log,course⟩ := @mailTransaction_course server settings next sender
    exact ⟨[],events,runs,Or.inl ⟨rc,rfl⟩,.unauthenticated none given course,caps,log⟩
  · exact ⟨[],[],Runs.refl,Or.inr ⟨rfl,rfl⟩,.unmatched none,rfl,(List.append_nil _).symm⟩
  · cases result with
    | some result =>
      exact ⟨turns,[],spoke.runs,Or.inl ⟨rc,rfl⟩,.left chosen tried opened,spoke.caps,by rw [List.append_nil]; exact spoke.log⟩
    | none =>
      obtain ⟨runs,caps,events,log,course⟩ := @mailTransaction_course server settings next sender
      rw [spoke.ssl] at course
      refine ⟨turns,events,spoke.runs.trans runs,Or.inl ⟨rc,rfl⟩,.authenticated chosen tried given course,caps.trans spoke.caps,?_⟩
      rw [← List.append_assoc,← spoke.log]
      exact log

/-- Why a session that asks for STARTTLS goes on in the clear. -/
def Refuses (settings : Settings) (ready : Session) : Prop :=
  wantsTls settings ready = false ∨ settings.sslInitialized = false ∨
  (∃ reply, codeOf reply ≠ 220 ∧ [.sent false .startTls,.heard false reply] <:+: ready.log) ∨
  .handshake false ∈ ready.log

theorem sayHelo_ssl {domain : List UInt8} : (session.sayHelo server domain).2.ssl = session.ssl :=
  ((@sayHelo_runs server ⟨fun _ => True,False,True⟩ session domain trivial fun _ => trivial).quiet id).1

theorem smtpStartTls_clear (supported : settings.openssl = true) (clear : (session.smtpStartTls server settings).2.ssl = false) :
    (session.smtpStartTls server settings).1 = -1 ∧
      (settings.sslInitialized = false ∨ (∃ reply, codeOf reply ≠ 220 ∧ [.sent false .startTls,.heard false reply] <:+: (session.smtpStartTls server settings).2.log) ∨
        .handshake false ∈ (session.smtpStartTls server settings).2.log) := by
  obtain ⟨reply,spoke,_,⟨code,_,_⟩⟩ := @exchange_reply server session .startTls
  unfold smtpStartTls at clear ⊢
  generalize session.exchange server .startTls = answered at spoke code clear ⊢
  obtain ⟨_,next⟩ := answered
  dsimp only at spoke code clear ⊢
  by_cases agreed : next.smtpCode ≠ 220
  · rw [if_pos agreed] at clear ⊢
    have before : session.ssl = false := spoke.ssl.symm.trans clear
    refine ⟨rfl,Or.inr (Or.inl ⟨reply,by rw [← code]; exact agreed,?_⟩)⟩
    rw [spoke.log,before]
    exact (List.suffix_append _ _).isInfix
  · rw [if_neg agreed,if_pos supported] at clear ⊢
    by_cases initialized : settings.sslInitialized = true
    swap
    · rw [if_neg initialized]
      exact ⟨rfl,Or.inl (Bool.eq_false_of_not_eq_true initialized)⟩
    rw [if_pos initialized] at clear ⊢
    have failed : server.accepts next.log = false := (Bool.or_eq_false_iff.mp clear).2
    refine ⟨?_,Or.inr (Or.inr ?_)⟩
    · simp [sslConnect,failed]
    · simp [sslConnect,failed]

/-- A session in the clear whose greeting was accepted was refused what it asked for. -/
theorem openSession_clear {domain : List UInt8} {rc : Int} (asked : settings.openssl = true)
    (goes : (session.openSession server settings domain).1 = .ok rc)
    (clear : (session.openSession server settings domain).2.ssl = false) :
    Refuses settings (session.openSession server settings domain).2 := by
  unfold openSession at goes clear ⊢
  generalize session.readGreetings settings = greeted at goes clear ⊢
  obtain ⟨_,next⟩ := greeted
  dsimp only at goes clear ⊢
  split at goes
  · exact absurd goes (by simp)
  rename_i welcome
  rw [if_neg welcome] at clear ⊢
  generalize next.sayHelo server domain = saluted at clear ⊢
  obtain ⟨_,ready⟩ := saluted
  dsimp only at clear ⊢
  split
  · rename_i wanted
    rw [if_pos wanted] at clear
    have refused := @smtpStartTls_clear server settings ready asked
    generalize ready.smtpStartTls server settings = started at refused clear ⊢
    obtain ⟨rc,secured⟩ := started
    dsimp only at refused clear ⊢
    by_cases accepted : rc = 0
    · rw [if_pos accepted,sayHelo_ssl] at clear
      exact absurd ((refused clear).1.symm.trans accepted) (by decide)
    · rw [if_neg accepted] at clear ⊢
      exact Or.inr (refused clear).2
  · rename_i unwanted
    exact Or.inl (by simpa [wantsTls] using unwanted)

end Session

/-- The events before the search for AUTH. -/
def Event.Begins (settings : Settings) : Event → Prop
  | .connected => True
  | .handshake _ => settings.Encrypts
  | .sent _ command => Session.Greets settings command
  | .heard _ _ => True

/-- What the opening of a session establishes. -/
structure Ready (settings : Settings) (ready : Session) : Prop where
  begins : ∀ event ∈ ready.log, event.Begins settings
  caps : ready.CapsHeard
  encrypts : ready.Encrypts

theorem Event.Within.begins {settings : Settings} {event : Event} (within : event.Within (Session.opening settings)) :
    event.Begins settings := by
  cases event with
  | connected => trivial
  | handshake => exact within
  | sent tls command => exact within
  | heard => trivial

theorem Ready.runs {server : Server} {settings : Settings} {session after : Session} (ready : Ready settings session)
    (runs : Session.Runs server (Session.opening settings) session after) (caps : after.CapsHeard) : Ready settings after := by
  obtain ⟨events,log,within⟩ := runs.extends
  refine ⟨?_,caps,runs.encrypts ready.encrypts⟩
  rw [log]
  exact List.forall_mem_append.mpr ⟨ready.begins,fun event member => (within event member).begins⟩

theorem connected_ready (server : Server) (settings : Settings) : Ready settings (initial.happens server .connected) := by
  refine ⟨by simp [initial,Session.happens,Event.Begins],fun _ member => absurd member List.not_mem_nil,?_,rfl⟩
  exact History.Each.concat History.Each.nil (by simp [Event.tls])

/-- What happened before the greeting. -/
def beforeGreeting (server : Server) (settings : Settings) : List Event :=
  if settings.doSsl && settings.openssl && settings.sslInitialized then [.connected,.handshake (server.accepts [.connected])] else [.connected]

section Whole
variable (server : Server) (settings : Settings)

/-- A session is not begun, or its opening is followed by a conversation. -/
theorem sendTheMail_conversation : sendTheMail server settings = (.returned (-1),initial) ∨
    ∃ ready turns events, Session.Runs server .free (initial.happens server .connected) ready ∧
      Session.Runs server .free ready (sendTheMail server settings).2 ∧
      (∃ start domain, start.log = beforeGreeting server settings ∧
        Session.Runs server .free (initial.happens server .connected) start ∧
        ready = (start.openSession server settings domain).2 ∧
        (turns ≠ [] ∨ events ≠ [] → ∃ rc, (start.openSession server settings domain).1 = .ok rc)) ∧
      Conversation settings ready (sendTheMail server settings).1 turns events ∧
      Ready settings ready ∧
      (sendTheMail server settings).2.serverCaps = ready.serverCaps ∧
      (sendTheMail server settings).2.log = ready.log ++ (spoken ready.ssl turns ++ events) := by
  unfold sendTheMail
  split
  · exact Or.inl rfl
  · exact Or.inl rfl
  · exact Or.inl rfl
  · rename_i sender domain _ given domainGiven
    split
    swap
    · exact Or.inl rfl
    right
    dsimp only
    have first := connected_ready server settings
    have begun : (if settings.doSsl then (initial.happens server .connected).turnOnRawSsl server settings
        else initial.happens server .connected).serverCaps = [] ∧
        Ready settings (if settings.doSsl then (initial.happens server .connected).turnOnRawSsl server settings
          else initial.happens server .connected) ∧
        Session.Runs server .free (initial.happens server .connected)
          (if settings.doSsl then (initial.happens server .connected).turnOnRawSsl server settings
            else initial.happens server .connected) ∧
        (if settings.doSsl then (initial.happens server .connected).turnOnRawSsl server settings
          else initial.happens server .connected).log = beforeGreeting server settings := by
      rw [beforeGreeting]
      split
      · have caps : ((initial.happens server .connected).turnOnRawSsl server settings).serverCaps = [] :=
          (@Session.turnOnRawSsl_runs server settings ⟨fun _ => False,True,False⟩ _ fun _ => trivial).caps id
        refine ⟨caps,first.runs (Session.turnOnRawSsl_runs id) fun cap member => ?_,Session.turnOnRawSsl_runs fun _ => trivial,?_⟩
        · rw [caps] at member
          exact absurd member List.not_mem_nil
        · rename_i raw
          rw [raw,Session.turnOnRawSsl]
          cases settings.openssl <;> cases settings.sslInitialized <;> rfl
      · rename_i plain
        exact ⟨rfl,first,Session.Runs.refl,by simp [plain,initial,Session.happens]⟩
    generalize (if settings.doSsl then (initial.happens server .connected).turnOnRawSsl server settings
      else initial.happens server .connected) = start at begun ⊢
    obtain ⟨bare,start_ready,started,begins⟩ := begun
    obtain ⟨turns,events,runs,goes,conversation,caps,log⟩ := @Session.converse_conversation server settings start sender domain given bare
    refine ⟨_,turns,events,started.trans (Session.openSession_runs domainGiven).free,runs,⟨start,domain,begins,started,rfl,?_⟩,conversation,
      start_ready.runs (Session.openSession_runs domainGiven) (Session.openSession_caps start_ready.caps),caps,log⟩
    intro spoke
    obtain goes | ⟨silent,empty⟩ := goes
    · exact goes
    · exact absurd spoke (by simp [silent,empty])

end Whole
end Libsme.Mailsend
