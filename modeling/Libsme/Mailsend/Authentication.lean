import Libsme.Mailsend.Transaction

/-! Authentication in a session: which mechanism is tried, and the dialogue of each. -/
namespace Libsme.Mailsend
open Script
open Semantics.Rfc4648 (ascii)

def coded (code : Int) (reply : Option Reply) : Prop := codeOf reply = code

def Mechanism.rank : Mechanism → Nat
  | .cramMd5 => 0
  | .login => 1
  | .plain => 2

def Settings.enabled (settings : Settings) : Mechanism → Bool
  | .cramMd5 => settings.authCramMd5
  | .login => settings.authLogin
  | .plain => settings.authPlain

/-- What is said for a mechanism and what must be answered; `text` is the answer to the challenge. -/
def dialogue (settings : Settings) (text : List UInt8) : Mechanism → List (Command × (Option Reply → Prop))
  | .cramMd5 => [(.auth .cramMd5,coded 334),(.credential .cramMd5 text,coded 235)]
  | .login =>
    [(.auth .login,coded 334),(.credential .login (encodeNoformat settings.username),coded 334),
      (.credential .login (encodeNoformat settings.userpass),coded 235)]
  | .plain => [(.credential .plain (encodeNoformat (0::settings.username ++ 0::settings.userpass)),coded 235)]

/-- The text that answers a challenge is that of encode_cram_md5 for its line. -/
def Answers (settings : Settings) (turns : List (Command × Option Reply)) (text : List UInt8) : Prop :=
  ∀ reply, (.auth .cramMd5,reply) ∈ turns → codeOf reply = 334 →
    settings.encodeCramMd5 (reply.elim [] Reply.line) settings.username settings.userpass = some text

namespace Session
variable {server : Server} {settings : Settings} {session : Session}

/-- The mechanism is enabled, and both AUTH and its name occur in what the server can do. -/
structure Eligible (settings : Settings) (session : Session) (mechanism : Mechanism) : Prop where
  enabled : settings.enabled mechanism = true
  auth : (session.checkServerCap (ascii "AUTH")).isSome
  offered : (session.checkServerCap mechanism.name).isSome

/-- The first eligible mechanism in the order of send_the_mail. -/
structure Chosen (settings : Settings) (session : Session) (mechanism : Mechanism) : Prop where
  eligible : Eligible settings session mechanism
  first : ∀ other, Eligible settings session other → mechanism.rank ≤ other.rank

/-- How the dialogue for a mechanism ends: `none` when it went through. -/
inductive Tried (settings : Settings) (rc : Int) (mechanism : Mechanism) :
    List (Command × Option Reply) → Option Int → Prop
  | incomplete (missing : settings.username = [] ∨ settings.userpass = []) : Tried settings rc mechanism [] (some (-1))
  | unsupported (absent : settings.openssl = false) (cram : mechanism = .cramMd5)
      (named : settings.username ≠ [] ∧ settings.userpass ≠ []) : Tried settings rc mechanism [] (some rc)
  | refused {text turns} (refused : Refused (dialogue settings text mechanism) turns) (answers : Answers settings turns text)
      (supported : mechanism = .cramMd5 → settings.openssl = true) : Tried settings rc mechanism turns (some (-1))
  | unanswered {reply} (cram : mechanism = .cramMd5) (supported : settings.openssl = true) (challenged : codeOf reply = 334)
      (failed : settings.encodeCramMd5 (reply.elim [] Reply.line) settings.username settings.userpass = none) :
      Tried settings rc mechanism [(.auth .cramMd5,reply)] (some (-1))
  | accepted {text turns} (accepted : Completed (dialogue settings text mechanism) turns)
      (answers : Answers settings turns text) (supported : mechanism = .cramMd5 → settings.openssl = true) :
      Tried settings rc mechanism turns none

theorem answers_unasked {turns : List (Command × Option Reply)} (unasked : ∀ turn ∈ turns, turn.1 ≠ .auth .cramMd5) :
    Answers settings turns [] := fun _ member => absurd rfl (unasked _ member)

theorem stays : Spoke server session session [] := ⟨(List.append_nil _).symm,rfl,rfl,Runs.refl⟩

theorem tryPlain_tried (rc : Int) : ∃ turns, Spoke server session (session.tryPlain server settings).2 turns ∧
    Tried settings rc .plain turns (session.tryPlain server settings).1 := by
  unfold tryPlain
  by_cases unnamed : settings.username = []
  · rw [if_pos unnamed]
    exact ⟨[],stays,.incomplete (Or.inl unnamed)⟩
  by_cases unguarded : settings.userpass = []
  · rw [if_neg unnamed,if_pos unguarded]
    exact ⟨[],stays,.incomplete (Or.inr unguarded)⟩
  rw [if_neg unnamed,if_neg unguarded]
  have encoded : mutilsEncodeBase64Noformat (0::settings.username ++ 0::settings.userpass) =
      some (encodeNoformat (0::settings.username ++ 0::settings.userpass)) := if_neg (by simp)
  rw [encoded]
  obtain ⟨reply,spoke,_,⟨code,_,_⟩⟩ := @exchange_reply server session
    (.credential .plain (encodeNoformat (0::settings.username ++ 0::settings.userpass)))
  dsimp only
  generalize session.exchange server _ = answered at spoke code ⊢
  obtain ⟨_,next⟩ := answered
  dsimp only at spoke code ⊢
  by_cases agreed : codeOf reply = 235
  · rw [if_neg (by rw [code]; exact not_not.mpr agreed)]
    exact ⟨_,spoke,.accepted (.cons agreed .nil) (answers_unasked (by simp)) (by simp)⟩
  · rw [if_pos (by rw [code]; exact agreed)]
    exact ⟨_,spoke,.refused (.here agreed) (answers_unasked (by simp)) (by simp)⟩

theorem tryLogin_tried (rc : Int) : ∃ turns, Spoke server session (session.tryLogin server settings).2 turns ∧
    Tried settings rc .login turns (session.tryLogin server settings).1 := by
  unfold tryLogin
  by_cases unnamed : settings.username = []
  · rw [if_pos unnamed]
    exact ⟨[],stays,.incomplete (Or.inl unnamed)⟩
  by_cases unguarded : settings.userpass = []
  · rw [if_neg unnamed,if_pos unguarded]
    exact ⟨[],stays,.incomplete (Or.inr unguarded)⟩
  rw [if_neg unnamed,if_neg unguarded]
  have user : mutilsEncodeBase64Noformat settings.username = some (encodeNoformat settings.username) := if_neg unnamed
  have pass : mutilsEncodeBase64Noformat settings.userpass = some (encodeNoformat settings.userpass) := if_neg unguarded
  obtain ⟨reply,spoke,_,⟨code,_,_⟩⟩ := @exchange_reply server session (.auth .login)
  generalize session.exchange server (.auth .login) = answered at spoke code ⊢
  obtain ⟨_,next⟩ := answered
  dsimp only at spoke code ⊢
  by_cases agreed : codeOf reply = 334
  swap
  · rw [if_pos (by rw [code]; exact agreed)]
    exact ⟨_,spoke,.refused (.here agreed) (answers_unasked (by simp)) (by simp)⟩
  rw [if_neg (by rw [code]; exact not_not.mpr agreed),user]
  obtain ⟨second,spoke2,_,⟨code2,_,_⟩⟩ := @exchange_reply server next (.credential .login (encodeNoformat settings.username))
  dsimp only
  generalize next.exchange server _ = answered at spoke2 code2 ⊢
  obtain ⟨_,later⟩ := answered
  dsimp only at spoke2 code2 ⊢
  by_cases agreed2 : codeOf second = 334
  swap
  · rw [if_pos (by rw [code2]; exact agreed2)]
    exact ⟨_,spoke.trans spoke2,.refused (.later agreed (.here agreed2)) (answers_unasked (by simp)) (by simp)⟩
  rw [if_neg (by rw [code2]; exact not_not.mpr agreed2),pass]
  obtain ⟨third,spoke3,_,⟨code3,_,_⟩⟩ := @exchange_reply server later (.credential .login (encodeNoformat settings.userpass))
  dsimp only
  generalize later.exchange server _ = answered at spoke3 code3 ⊢
  obtain ⟨_,last⟩ := answered
  dsimp only at spoke3 code3 ⊢
  by_cases agreed3 : codeOf third = 235
  · rw [if_neg (by rw [code3]; exact not_not.mpr agreed3)]
    exact ⟨_,(spoke.trans spoke2).trans spoke3,.accepted (.cons agreed (.cons agreed2 (.cons agreed3 .nil)))
      (answers_unasked (by simp)) (by simp)⟩
  · rw [if_pos (by rw [code3]; exact agreed3)]
    exact ⟨_,(spoke.trans spoke2).trans spoke3,.refused (.later agreed (.later agreed2 (.here agreed3)))
      (answers_unasked (by simp)) (by simp)⟩

theorem tryCramMd5_tried (rc : Int) : ∃ turns, Spoke server session (session.tryCramMd5 server settings rc).2 turns ∧
    Tried settings rc .cramMd5 turns (session.tryCramMd5 server settings rc).1 := by
  unfold tryCramMd5
  by_cases unnamed : settings.username = []
  · rw [if_pos unnamed]
    exact ⟨[],stays,.incomplete (Or.inl unnamed)⟩
  by_cases unguarded : settings.userpass = []
  · rw [if_neg unnamed,if_pos unguarded]
    exact ⟨[],stays,.incomplete (Or.inr unguarded)⟩
  rw [if_neg unnamed,if_neg unguarded]
  by_cases supported : settings.openssl = true
  swap
  · rw [if_pos (by simpa using supported)]
    exact ⟨[],stays,.unsupported (by simpa using supported) rfl ⟨unnamed,unguarded⟩⟩
  rw [if_neg (by simpa using supported)]
  obtain ⟨reply,spoke,_,⟨code,line,_⟩⟩ := @exchange_reply server session (.auth .cramMd5)
  generalize session.exchange server (.auth .cramMd5) = answered at spoke code line ⊢
  obtain ⟨_,next⟩ := answered
  dsimp only at spoke code line ⊢
  by_cases agreed : codeOf reply = 334
  swap
  · rw [if_pos (by rw [code]; exact agreed)]
    refine ⟨_,spoke,@Tried.refused settings rc .cramMd5 [] _ (.here agreed) ?_ fun _ => supported⟩
    intro other member same
    have equal : other = reply := by simpa using member
    exact absurd (equal ▸ same) agreed
  rw [if_neg (by rw [code]; exact not_not.mpr agreed),line]
  cases answer : settings.encodeCramMd5 (reply.elim [] Reply.line) settings.username settings.userpass with
  | none => exact ⟨_,spoke,.unanswered rfl supported agreed answer⟩
  | some cmd5 =>
    obtain ⟨second,spoke2,_,⟨code2,_,_⟩⟩ := @exchange_reply server next (.credential .cramMd5 cmd5)
    have answers : Answers settings [(.auth .cramMd5,reply),(.credential .cramMd5 cmd5,second)] cmd5 := by
      intro other member _
      have equal : other = reply := by simpa using member
      rw [equal,answer]
    dsimp only
    generalize next.exchange server _ = answered at spoke2 code2 ⊢
    obtain ⟨_,later⟩ := answered
    dsimp only at spoke2 code2 ⊢
    by_cases agreed2 : codeOf second = 235
    · rw [if_neg (by rw [code2]; exact not_not.mpr agreed2)]
      exact ⟨_,spoke.trans spoke2,.accepted (.cons agreed (.cons agreed2 .nil)) answers fun _ => supported⟩
    · rw [if_pos (by rw [code2]; exact agreed2)]
      exact ⟨_,spoke.trans spoke2,.refused (.later agreed (.here agreed2)) answers fun _ => supported⟩

theorem authenticate_course (rc : Int) :
    ((∀ mechanism, ¬Eligible settings session mechanism) ∧ (session.authenticate server settings rc).2 = session ∧
      ((session.authenticate server settings rc).1 = none ∨ (session.authenticate server settings rc).1 = some .exited)) ∨
    ∃ mechanism turns result, Chosen settings session mechanism ∧ Tried settings rc mechanism turns result ∧
      Spoke server session (session.authenticate server settings rc).2 turns ∧
      (session.authenticate server settings rc).1 = result.map .returned := by
  unfold authenticate
  by_cases wanted : settings.doAuth || settings.authCramMd5 || settings.authLogin || settings.authPlain
  swap
  · rw [if_pos (by simpa using wanted)]
    refine Or.inl ⟨fun mechanism eligible => wanted ?_,rfl,Or.inl rfl⟩
    have enabled := eligible.enabled
    cases mechanism <;> simp_all [Settings.enabled]
  rw [if_neg (by rw [wanted]; decide)]
  by_cases auth : (session.checkServerCap (ascii "AUTH")).isSome
  swap
  · rw [if_pos (by simpa using auth)]
    exact Or.inl ⟨fun mechanism eligible => auth eligible.auth,rfl,Or.inl rfl⟩
  rw [if_neg (by rw [← Option.not_isSome,auth]; decide)]
  by_cases cram : settings.authCramMd5 && (session.checkServerCap Mechanism.cramMd5.name).isSome
  · rw [if_pos cram]
    obtain ⟨turns,spoke,tried⟩ := @tryCramMd5_tried server settings session rc
    have both := Bool.and_eq_true_iff.mp cram
    exact Or.inr ⟨.cramMd5,turns,_,⟨⟨both.1,auth,both.2⟩,fun _ _ => Nat.zero_le _⟩,tried,spoke,rfl⟩
  rw [if_neg cram]
  have noCram : ¬Eligible settings session .cramMd5 := fun eligible =>
    cram (Bool.and_eq_true_iff.mpr ⟨eligible.enabled,eligible.offered⟩)
  by_cases login : settings.authLogin && (session.checkServerCap Mechanism.login.name).isSome
  · rw [if_pos login]
    obtain ⟨turns,spoke,tried⟩ := @tryLogin_tried server settings session rc
    have both := Bool.and_eq_true_iff.mp login
    refine Or.inr ⟨.login,turns,_,⟨⟨both.1,auth,both.2⟩,fun other eligible => ?_⟩,tried,spoke,rfl⟩
    cases other with
    | cramMd5 => exact absurd eligible noCram
    | login => exact Nat.le_refl _
    | plain => exact Nat.le_succ _
  rw [if_neg login]
  have noLogin : ¬Eligible settings session .login := fun eligible =>
    login (Bool.and_eq_true_iff.mpr ⟨eligible.enabled,eligible.offered⟩)
  by_cases plain : settings.authPlain && (session.checkServerCap Mechanism.plain.name).isSome
  · rw [if_pos plain]
    obtain ⟨turns,spoke,tried⟩ := @tryPlain_tried server settings session rc
    have both := Bool.and_eq_true_iff.mp plain
    refine Or.inr ⟨.plain,turns,_,⟨⟨both.1,auth,both.2⟩,fun other eligible => ?_⟩,tried,spoke,rfl⟩
    cases other with
    | cramMd5 => exact absurd eligible noCram
    | login => exact absurd eligible noLogin
    | plain => exact Nat.le_refl _
  rw [if_neg plain]
  have none : ∀ mechanism, ¬Eligible settings session mechanism := by
    intro mechanism eligible
    cases mechanism with
    | cramMd5 => exact noCram eligible
    | login => exact noLogin eligible
    | plain => exact plain (Bool.and_eq_true_iff.mpr ⟨eligible.enabled,eligible.offered⟩)
  split
  · exact Or.inl ⟨none,rfl,Or.inl rfl⟩
  · exact Or.inl ⟨none,rfl,Or.inr rfl⟩

end Session
end Libsme.Mailsend
