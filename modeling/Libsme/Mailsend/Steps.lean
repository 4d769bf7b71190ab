import Libsme.Mailsend.Session
import Mathlib.Logic.Relation

/-! What the functions of a session do to it, as steps: every function is a run of them, and
what a step keeps holds over every session. -/
namespace Libsme.Mailsend

/-- What a part of a session may do besides reading. -/
structure Scope where
  speaks : Command → Prop
  encrypts : Prop
  lists : Prop

def Scope.listening : Scope := ⟨fun _ => False,False,False⟩

def Scope.free : Scope := ⟨fun _ => True,True,True⟩

inductive Session.Step (server : Server) (scope : Scope) : Session → Session → Prop
  | puts (session) (command) (allowed : scope.speaks command) : Step server scope session (session.msockPuts server command)
  | reads (session) : Step server scope session session.readSmtpLine.2
  | connects (session) (allowed : scope.encrypts) : Step server scope session (session.sslConnect server).2
  | notes (session) (sep : UInt8) (esmtp : Bool) :
    Step server scope session {session with smtpSep := sep, sEsmtp := esmtp}
  | cap (session) (allowed : scope.lists) : Step server scope session (session.addServerCapToList session.smtpLine)

/-- A handshake can be made. -/
def Settings.Encrypts (settings : Settings) : Prop := settings.openssl = true ∧ settings.sslInitialized = true

def Session.Runs (server : Server) (scope : Scope) : Session → Session → Prop :=
  Relation.ReflTransGen (Session.Step server scope)

namespace Session
variable {server : Server} {settings : Settings} {scope : Scope}
variable {session middle after : Session}

theorem Runs.refl : Runs server scope session session := Relation.ReflTransGen.refl

theorem Runs.trans (first : Runs server scope session middle) (second : Runs server scope middle after) :
    Runs server scope session after := Relation.ReflTransGen.trans first second

theorem Step.runs (step : Step server scope session after) : Runs server scope session after :=
  Relation.ReflTransGen.single step

theorem Step.free (step : Step server scope session after) : Step server .free session after := by
  cases step with
  | puts command => exact .puts _ _ trivial
  | reads => exact .reads _
  | connects => exact .connects _ trivial
  | notes sep esmtp => exact .notes _ _ _
  | cap => exact .cap _ trivial

theorem Runs.free (runs : Runs server scope session after) : Runs server .free session after :=
  Relation.ReflTransGen.mono (fun _ _ step => Step.free step) _ _ runs

theorem Runs.keeps {Invariant : Session → Prop}
    (kept : ∀ before after, Step server scope before after → Invariant before → Invariant after)
    (runs : Runs server scope session after) (holds : Invariant session) : Invariant after := by
  induction runs with
  | refl => exact holds
  | tail _ step ih => exact kept _ _ step ih

theorem setSep_runs (sep : UInt8) : Runs server scope session {session with smtpSep := sep} :=
  (Step.notes session sep session.sEsmtp).runs

theorem reads_runs : Runs server scope session session.readSmtpLine.2 := (Step.reads session).runs

theorem exchange_runs {command : Command} (allowed : scope.speaks command) :
    Runs server scope session (session.exchange server command).2 :=
  (Step.puts session command allowed).runs.trans reads_runs

theorem noteEsmtp_runs : Runs server scope session session.noteEsmtp := by
  unfold noteEsmtp
  split
  · exact (Step.notes session session.smtpSep true).runs
  · exact Runs.refl

theorem moreLines_runs (left : Nat) : Runs server scope session (moreLines left session).2 := by
  induction left generalizing session with
  | zero => exact Runs.refl
  | succ left ih =>
    have first : Runs server scope session session.readSmtpLine.2 := reads_runs
    unfold moreLines
    generalize session.readSmtpLine = read at first
    obtain ⟨rc,next⟩ := read
    dsimp only at first ⊢
    split
    · exact first.trans (setSep_runs _)
    · split
      · exact first
      · split
        · exact first.trans (setSep_runs _)
        · exact first.trans ih

theorem readSmtpMultiLines_runs : Runs server scope session session.readSmtpMultiLines.2 := by
  unfold readSmtpMultiLines
  split
  · exact moreLines_runs 100
  · exact setSep_runs _

theorem greetingLines_runs (left : Nat) : Runs server scope session (greetingLines left session).2 := by
  induction left generalizing session with
  | zero => exact Runs.refl
  | succ left ih =>
    have first : Runs server scope session session.readSmtpLine.2 := reads_runs
    unfold greetingLines
    generalize session.readSmtpLine = read at first
    obtain ⟨rc,next⟩ := read
    dsimp only at first ⊢
    split
    · exact first
    · split
      · exact first
      · split
        · exact first.trans noteEsmtp_runs
        · exact (first.trans noteEsmtp_runs).trans ih

theorem readGreetings_runs : Runs server scope session (session.readGreetings settings).2 := by
  have first : Runs server scope session session.readSmtpLine.2 := reads_runs
  unfold readGreetings
  generalize session.readSmtpLine = read at first
  obtain ⟨rc,next⟩ := read
  dsimp only at first ⊢
  split
  · exact first.trans (setSep_runs _)
  · have forced : Runs server scope session {next with sEsmtp := settings.esmtp} :=
      first.trans (Step.notes next next.smtpSep settings.esmtp).runs
    split
    · exact (forced.trans readSmtpMultiLines_runs).trans (setSep_runs _)
    · have noted := forced.trans noteEsmtp_runs
      split
      · exact (noted.trans (greetingLines_runs 100)).trans (setSep_runs _)
      · exact noted.trans (setSep_runs _)

theorem capLines_runs (lists : scope.lists) (left : Nat) : Runs server scope session (capLines left session).2 := by
  induction left generalizing session with
  | zero => exact Runs.refl
  | succ left ih =>
    have first : Runs server scope session session.readSmtpLine.2 := reads_runs
    unfold capLines
    generalize session.readSmtpLine = read at first
    obtain ⟨rc,next⟩ := read
    dsimp only at first ⊢
    have added : Runs server scope session (if rc = 0 then next.addServerCapToList next.smtpLine else next) := by
      split
      · exact first.trans (Step.cap next lists).runs
      · exact first
    generalize (if rc = 0 then next.addServerCapToList next.smtpLine else next) = noted at added ⊢
    split
    · exact added
    · split
      · exact added
      · exact added.trans ih

theorem sayHelo_runs {domain : List UInt8} (lists : scope.lists) (allowed : ∀ extended, scope.speaks (.hello extended domain)) :
    Runs server scope session (session.sayHelo server domain).2 := by
  have first : Runs server scope session (session.exchange server (.hello session.sEsmtp domain)).2 :=
    exchange_runs (allowed _)
  unfold sayHelo
  generalize session.exchange server (.hello session.sEsmtp domain) = answered at first
  obtain ⟨rc,next⟩ := answered
  dsimp only at first ⊢
  split
  · exact first
  · split
    · exact (first.trans (capLines_runs lists 1000)).trans (setSep_runs _)
    · exact first.trans (setSep_runs _)

theorem turnOnRawSsl_runs (allowed : settings.Encrypts → scope.encrypts) :
    Runs server scope session (session.turnOnRawSsl server settings) := by
  unfold turnOnRawSsl
  split
  · rename_i able
    exact (Step.connects session (allowed (Bool.and_eq_true_iff.mp able))).runs
  · exact Runs.refl

theorem smtpStartTls_runs (allowed : scope.speaks .startTls) (encrypted : settings.Encrypts → scope.encrypts) :
    Runs server scope session (session.smtpStartTls server settings).2 := by
  have first : Runs server scope session (session.exchange server .startTls).2 := exchange_runs allowed
  unfold smtpStartTls
  generalize session.exchange server .startTls = answered at first
  obtain ⟨rc,next⟩ := answered
  dsimp only at first ⊢
  split
  · exact first
  · split
    · rename_i supported
      split
      · rename_i initialized
        exact first.trans (Step.connects next (encrypted ⟨supported,initialized⟩)).runs
      · exact first
    · exact first

def Opens : Command → Prop
  | .hello _ _ => True
  | .startTls => True
  | _ => False

/-- A hello names the domain that is set. -/
def Greets (settings : Settings) (command : Command) : Prop :=
  Opens command ∧ ∀ extended domain, command = .hello extended domain → settings.heloDomain = some domain

def opening (settings : Settings) : Scope := ⟨Greets settings,settings.Encrypts,True⟩

theorem openSession_runs {domain : List UInt8} (given : settings.heloDomain = some domain) :
    Runs server (opening settings) session (session.openSession server settings domain).2 := by
  have greets (extended : Bool) : Greets settings (.hello extended domain) :=
    ⟨trivial,fun _ _ same => (Command.hello.inj same).2 ▸ given⟩
  have first : Runs server (opening settings) session (session.readGreetings settings).2 := readGreetings_runs
  unfold openSession
  generalize session.readGreetings settings = greeted at first
  obtain ⟨rc,next⟩ := greeted
  dsimp only at first ⊢
  split
  · exact first
  · have second := first.trans (@sayHelo_runs server (opening settings) next domain trivial greets)
    generalize next.sayHelo server domain = saluted at second ⊢
    obtain ⟨_,ready⟩ := saluted
    dsimp only at second ⊢
    split
    · have third := second.trans (@smtpStartTls_runs server settings (opening settings) ready ⟨trivial,by simp⟩ id)
      generalize ready.smtpStartTls server settings = started at third ⊢
      obtain ⟨rc,secured⟩ := started
      dsimp only at third ⊢
      split
      · exact third.trans (sayHelo_runs trivial greets)
      · exact third
    · exact second

end Session

/-- An event of a run that is allowed what it does. -/
def Event.Within (scope : Scope) : Event → Prop
  | .connected => False
  | .handshake _ => scope.encrypts
  | .sent _ command => scope.speaks command
  | .heard _ _ => True

def Extends (allowed : Event → Prop) (before after : Session) : Prop :=
  ∃ events, after.log = before.log ++ events ∧ ∀ event ∈ events, allowed event

namespace Session
variable {server : Server} {scope : Scope} {session after : Session}

theorem readSmtpLine_log : ∃ reply, session.readSmtpLine.2.log = session.log ++ [.heard session.ssl reply] := by
  unfold readSmtpLine
  dsimp only
  split <;> exact ⟨_,rfl⟩

theorem readSmtpLine_ssl : session.readSmtpLine.2.ssl = session.ssl := by
  unfold readSmtpLine
  dsimp only
  split <;> rfl

theorem addServerCapToList_log {cap : List UInt8} : (session.addServerCapToList cap).log = session.log := by
  unfold addServerCapToList
  split <;> rfl

theorem addServerCapToList_ssl {cap : List UInt8} : (session.addServerCapToList cap).ssl = session.ssl := by
  unfold addServerCapToList
  split <;> rfl

/-- A step leaves the log or adds an event that carries the state of the encryption. -/
theorem Step.log (step : Step server scope session after) :
    (after.log = session.log ∧ after.ssl = session.ssl) ∨
    (∃ command, scope.speaks command ∧ after.log = session.log ++ [.sent session.ssl command] ∧ after.ssl = session.ssl) ∨
    (∃ reply, after.log = session.log ++ [.heard session.ssl reply] ∧ after.ssl = session.ssl) ∨
    (scope.encrypts ∧ ∃ success, after.log = session.log ++ [.handshake success] ∧ after.ssl = (session.ssl || success)) := by
  cases step with
  | puts command allowed => exact Or.inr (Or.inl ⟨command,allowed,rfl,rfl⟩)
  | reads =>
    obtain ⟨reply,log⟩ := @readSmtpLine_log session
    exact Or.inr (Or.inr (Or.inl ⟨reply,log,readSmtpLine_ssl⟩))
  | connects allowed => exact Or.inr (Or.inr (Or.inr ⟨allowed,_,rfl,rfl⟩))
  | notes => exact Or.inl ⟨rfl,rfl⟩
  | cap => exact Or.inl ⟨addServerCapToList_log,addServerCapToList_ssl⟩

theorem Runs.extends (runs : Runs server scope session after) :
    Extends (Event.Within scope) session after := by
  apply runs.keeps ?_ ⟨[],(List.append_nil _).symm,fun _ member => absurd member List.not_mem_nil⟩
  rintro before next step ⟨events,log,within⟩
  have grown (event : Event) (allowed : event.Within scope) (longer : next.log = before.log ++ [event]) :
      Extends (Event.Within scope) session next := by
    refine ⟨events ++ [event],by rw [longer,log,List.append_assoc],?_⟩
    intro other member
    rcases List.mem_append.mp member with early | late
    · exact within other early
    · rw [List.mem_singleton.mp late]
      exact allowed
  obtain ⟨same,_⟩ | ⟨command,allowed,longer,_⟩ | ⟨reply,longer,_⟩ | ⟨allowed,success,longer,_⟩ := step.log
  · exact ⟨events,same.trans log,within⟩
  · exact grown (.sent _ command) allowed longer
  · exact grown (.heard _ reply) trivial longer
  · exact grown (.handshake success) allowed longer

/-- Without encrypting, a run hears and says what it does in one state of the encryption. -/
theorem Runs.quiet (plain : ¬scope.encrypts) (runs : Runs server scope session after) : after.ssl = session.ssl ∧
    Extends (fun event => (∃ reply, event = .heard session.ssl reply) ∨
      ∃ command, scope.speaks command ∧ event = .sent session.ssl command) session after := by
  apply runs.keeps ?_ ⟨rfl,[],(List.append_nil _).symm,fun _ member => absurd member List.not_mem_nil⟩
  rintro before next step ⟨ssl,events,log,within⟩
  obtain ⟨same,kept⟩ | ⟨command,allowed,longer,kept⟩ | ⟨reply,longer,kept⟩ | ⟨never,_⟩ := step.log
  · exact ⟨kept.trans ssl,events,same.trans log,within⟩
  · refine ⟨kept.trans ssl,events ++ [.sent session.ssl command],by rw [longer,log,ssl,List.append_assoc],?_⟩
    exact List.forall_mem_append.mpr ⟨within,by simpa using allowed⟩
  · refine ⟨kept.trans ssl,events ++ [.heard session.ssl reply],by rw [longer,log,ssl,List.append_assoc],?_⟩
    exact List.forall_mem_append.mpr ⟨within,by simp⟩
  · exact absurd never plain

theorem Runs.listens (runs : Runs server .listening session after) : after.ssl = session.ssl ∧
    ∃ replies : List (Option Reply), after.log = session.log ++ replies.map (.heard session.ssl) := by
  obtain ⟨ssl,events,log,within⟩ := runs.quiet id
  refine ⟨ssl,?_⟩
  have replies : ∃ replies : List (Option Reply), events = replies.map (.heard session.ssl) := by
    clear log
    induction events with
    | nil => exact ⟨[],rfl⟩
    | cons event events ih =>
      obtain ⟨here,later⟩ := List.forall_mem_cons.mp within
      obtain ⟨replies,rfl⟩ := ih later
      obtain ⟨reply,rfl⟩ | ⟨_,never,_⟩ := here
      · exact ⟨reply::replies,rfl⟩
      · exact never.elim
  obtain ⟨replies,rfl⟩ := replies
  exact ⟨replies,log⟩

end Session
end Libsme.Mailsend
