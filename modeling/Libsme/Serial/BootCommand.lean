import Libsme.Library.Transition
import Libsme.Serial.LineReader

/-! The flag `u_boot_cmd` between tty_context_handle, which queues the boot command, and
tty_write_thread_handle, which carries the queued messages out. A third process, serial_msg,
queues reboots. -/
namespace Libsme.Serial
open Memory (cstr occurrence)

inductive Message where
  | uBootCmd
  | login
  | normal
  | reboot
deriving DecidableEq

structure Prompts where
  ubootstart : List UInt8
  isbootcmd : List UInt8
  loginstart : List UInt8

/-- What a line makes tty_context_handle do: nothing, to write "\r\n" five times, or to
queue a message and to set `u_boot_cmd`. -/
inductive Reaction where
  | quiet
  | entry
  | send (message : Message) (uBootCmd : Bool)
deriving DecidableEq

def strstr (buf needle : List UInt8) : Bool := (occurrence needle (cstr buf)).isSome

def ttyContext (prompts : Prompts) (uBootCmd : Bool) (buf : List UInt8) : Reaction :=
  if (cstr buf).length = 0 then .quiet
  else if hookMode then
    if strstr buf prompts.ubootstart then .entry
    else if strstr buf prompts.isbootcmd then
      if uBootCmd = false then .send .uBootCmd true else .quiet
    else if strstr buf prompts.loginstart then .send .login false
    else .quiet
  else .quiet

/-- tty_context_handle is idle or between its msgsnd and the assignment to `u_boot_cmd`. -/
inductive Handler where
  | idle
  | sent (uBootCmd : Bool)

/-- `executing` is the message that the writer has received and not finished. -/
structure Automation where
  uBootCmd : Bool
  handler : Handler
  executing : Option Message
  queue : List Message

namespace Automation

inductive Action where
  | line (buf : List UInt8) (success : Bool)
  | assign (uBootCmd : Bool)
  | receive
  | finish
  | post

def step (prompts : Prompts) (automation : Automation) : Action → Option Automation
  | .line buf success =>
    match automation.handler with
    | .idle =>
      match ttyContext prompts automation.uBootCmd buf with
      | .send message uBootCmd => some {automation with
          handler := .sent uBootCmd
          queue := if success then automation.queue ++ [message] else automation.queue}
      | _ => some automation
    | .sent _ => none
  | .assign uBootCmd =>
    match automation.handler with
    | .idle => none
    | .sent value =>
      if uBootCmd = value then some {automation with uBootCmd := uBootCmd, handler := .idle} else none
  | .receive =>
    match automation.executing,automation.queue with
    | none,message::queue => some {automation with executing := some message, queue := queue}
    | _,_ => none
  | .finish =>
    match automation.executing with
    | some message => some {automation with
        executing := none
        uBootCmd := if message = .uBootCmd then false else automation.uBootCmd}
    | none => none
  | .post => some {automation with queue := automation.queue ++ [.reboot]}

def start : Automation := ⟨false,.idle,none,[]⟩

def pending (automation : Automation) : Nat :=
  (automation.executing.toList ++ automation.queue).count .uBootCmd

/-- While tty_context_handle is idle, the flag says that a boot command is queued or being
executed, and there is never more than one. -/
def Mirrors (automation : Automation) : Prop :=
  automation.handler = .idle → (automation.uBootCmd = true ↔ automation.pending = 1) ∧ automation.pending ≤ 1

/-- The boot command gets into the queue, the writer is not done with it before the flag is
set, and the login branch clears the flag of no boot command. -/
def InTime (prompts : Prompts) (automation : Automation) : Action → Prop
  | .line buf success => ttyContext prompts automation.uBootCmd buf = .send .uBootCmd true → success = true
  | .finish => automation.executing = some .uBootCmd → automation.handler ≠ .sent true
  | .assign uBootCmd => uBootCmd = false → automation.pending = 0
  | .receive => True
  | .post => True

/-- The flag as it is, and for a handler that has sent the boot command as it will be. -/
structure Sound (automation : Automation) : Prop where
  flag : automation.uBootCmd = true → automation.handler ≠ .sent true
  mirrors : automation.uBootCmd = true ∨ automation.handler = .sent true ↔ automation.pending = 1
  once : automation.pending ≤ 1

variable {prompts : Prompts}

theorem ttyContext_message {uBootCmd value : Bool} {buf : List UInt8} {message : Message}
    (sends : ttyContext prompts uBootCmd buf = .send message value) :
    (message = .uBootCmd ∧ value = true ∧ uBootCmd = false) ∨ (message = .login ∧ value = false) := by
  unfold ttyContext at sends
  split at sends
  · exact nomatch sends
  · split at sends
    · split at sends
      · exact nomatch sends
      · split at sends
        · split at sends
          · rename_i clear
            cases sends
            exact Or.inl ⟨rfl,rfl,clear⟩
          · exact nomatch sends
        · split at sends
          · cases sends
            exact Or.inr ⟨rfl,rfl⟩
          · exact nomatch sends
    · exact nomatch sends

theorem pending_queue (automation : Automation) (message : Message) :
    pending {automation with queue := automation.queue ++ [message]} =
      automation.pending + if message = .uBootCmd then 1 else 0 := by
  simp only [pending,List.count_append,List.count_singleton,beq_iff_eq]
  omega

theorem Sound.mirrored {automation : Automation} (sound : automation.Sound) : automation.Mirrors := by
  intro idle
  refine ⟨?_,sound.once⟩
  rw [← sound.mirrors,idle]
  simp

theorem Sound.cleared {automation : Automation} (sound : automation.Sound) (idle : automation.handler ≠ .sent true)
    (clear : automation.uBootCmd = false) : automation.pending = 0 := by
  have once := sound.once
  have none : automation.pending ≠ 1 := by
    intro one
    rcases sound.mirrors.mpr one with set | sent
    · rw [clear] at set
      exact nomatch set
    · exact idle sent
  omega

theorem Sound.line {automation next : Automation} {buf : List UInt8} {success : Bool} (sound : automation.Sound)
    (taken : automation.step prompts (.line buf success) = some next)
    (inTime : automation.InTime prompts (.line buf success)) : next.Sound := by
  obtain ⟨uBootCmd,handler,executing,queue⟩ := automation
  cases handler with
  | sent _ => exact nomatch taken
  | idle =>
    dsimp only [step] at taken
    cases reaction : ttyContext prompts uBootCmd buf with
    | quiet | entry =>
      rw [reaction] at taken
      exact Option.some.inj taken ▸ sound
    | send message value =>
      rw [reaction] at taken
      obtain rfl := Option.some.inj taken
      rcases ttyContext_message reaction with ⟨rfl,rfl,rfl⟩ | ⟨rfl,rfl⟩
      · obtain rfl := inTime reaction
        have none := sound.cleared (by simp) rfl
        have one := pending_queue ⟨false,.sent true,executing,queue⟩ .uBootCmd
        have same : pending ⟨false,.sent true,executing,queue⟩ = 0 := none
        rw [same,if_pos rfl] at one
        exact ⟨nofun,⟨fun _ => one,fun _ => Or.inr rfl⟩,Nat.le_of_eq one⟩
      · have same : pending ⟨uBootCmd,.sent false,executing,if success then queue ++ [.login] else queue⟩ =
            pending ⟨uBootCmd,.idle,executing,queue⟩ := by
          cases success with
          | true => exact pending_queue ⟨uBootCmd,.idle,executing,queue⟩ .login
          | false => rfl
        refine ⟨by simp,?_,?_⟩
        · rw [same,← sound.mirrors]
          simp
        · rw [same]
          exact sound.once

theorem Sound.assign {automation next : Automation} {value : Bool} (sound : automation.Sound)
    (taken : automation.step prompts (.assign value) = some next)
    (inTime : automation.InTime prompts (.assign value)) : next.Sound := by
  obtain ⟨uBootCmd,handler,executing,queue⟩ := automation
  cases handler with
  | idle => exact nomatch taken
  | sent assigned =>
    dsimp only [step] at taken
    by_cases same : value = assigned
    · rw [if_pos same] at taken
      obtain rfl := Option.some.inj taken
      subst same
      refine ⟨nofun,?_,sound.once⟩
      cases value with
      | true =>
        have one := sound.mirrors.mp (Or.inr rfl)
        exact ⟨fun _ => one,fun _ => Or.inl rfl⟩
      | false =>
        have none := inTime rfl
        refine ⟨by simp,?_⟩
        intro one
        exact absurd (none.symm.trans one) Nat.zero_ne_one
    · rw [if_neg same] at taken
      exact nomatch taken

theorem Sound.receive {automation next : Automation} (sound : automation.Sound)
    (taken : automation.step prompts .receive = some next) : next.Sound := by
  obtain ⟨uBootCmd,handler,executing,queue⟩ := automation
  cases executing with
  | some _ => exact nomatch taken
  | none =>
    cases queue with
    | nil => exact nomatch taken
    | cons message queue =>
      obtain rfl := Option.some.inj taken
      exact ⟨sound.flag,sound.mirrors,sound.once⟩

theorem pending_finish (automation : Automation) {message : Message}
    (executing : automation.executing = some message) :
    automation.pending = automation.queue.count .uBootCmd + if message = .uBootCmd then 1 else 0 := by
  rw [pending,executing]
  simp only [Option.toList_some,List.singleton_append,List.count_cons,beq_iff_eq]

theorem Sound.finish {automation next : Automation} (sound : automation.Sound)
    (taken : automation.step prompts .finish = some next)
    (inTime : automation.InTime prompts .finish) : next.Sound := by
  obtain ⟨uBootCmd,handler,executing,queue⟩ := automation
  cases executing with
  | none => exact nomatch taken
  | some message =>
    obtain rfl := Option.some.inj taken
    have count := pending_finish ⟨uBootCmd,handler,some message,queue⟩ rfl
    have once := sound.once
    by_cases boot : message = .uBootCmd
    · subst boot
      have set := inTime rfl
      rw [if_pos rfl] at count
      have none : pending ⟨false,handler,none,queue⟩ = 0 := by
        change queue.count .uBootCmd = 0
        dsimp only at count
        omega
      refine ⟨nofun,?_,Nat.le_trans (Nat.le_of_eq none) (Nat.zero_le 1)⟩
      rw [if_pos rfl,none]
      simpa using set
    · rw [if_neg boot] at count
      have same : pending ⟨uBootCmd,handler,some message,queue⟩ = pending ⟨uBootCmd,handler,none,queue⟩ := count
      rw [if_neg boot]
      exact ⟨sound.flag,same ▸ sound.mirrors,same ▸ sound.once⟩

theorem Sound.post {automation next : Automation} (sound : automation.Sound)
    (taken : automation.step prompts .post = some next) : next.Sound := by
  obtain rfl := Option.some.inj taken
  have same := pending_queue automation .reboot
  exact ⟨sound.flag,same ▸ sound.mirrors,same ▸ sound.once⟩

theorem Sound.step {automation next : Automation} (sound : automation.Sound) (action : Action)
    (taken : automation.step prompts action = some next) (inTime : automation.InTime prompts action) :
    next.Sound := by
  cases action with
  | line buf success => exact sound.line taken inTime
  | assign value => exact sound.assign taken inTime
  | receive => exact sound.receive taken
  | finish => exact sound.finish taken inTime
  | post => exact sound.post taken

def Kept (prompts : Prompts) (start : Automation) (actions : List Action) : Prop :=
  Transition.Throughout (step prompts) Mirrors start actions

def Probe (probe : List Action) : Prop := probe <+: [.assign true]

theorem probe_inTime (automation : Automation) {probe : List Action} (isProbe : Probe probe) :
    Transition.Meets (step prompts) (InTime prompts) automation probe := by
  refine Transition.Meets.of_prefix ?_ isProbe
  intro next _
  refine ⟨?_,trivial⟩
  intro cleared
  exact nomatch cleared

theorem assign_lost {automation : Automation} (handler : automation.handler = .sent true)
    (none : automation.pending = 0) : ¬Kept prompts automation [.assign true] := by
  obtain ⟨uBootCmd,phase,executing,queue⟩ := automation
  subst handler
  intro kept
  have mirrors := (kept.later rfl).start rfl
  have one : pending ⟨uBootCmd,.sent true,executing,queue⟩ = 1 := mirrors.1.mp rfl
  rw [none] at one
  exact Nat.zero_ne_one one

theorem Sound.unsent {automation next : Automation} {buf : List UInt8} {success : Bool} (sound : automation.Sound)
    (taken : automation.step prompts (.line buf success) = some next)
    (unmet : ¬automation.InTime prompts (.line buf success)) :
    ¬Kept prompts automation [.line buf success,.assign true] := by
  obtain ⟨uBootCmd,handler,executing,queue⟩ := automation
  obtain ⟨sends,failed⟩ := Classical.not_imp.mp unmet
  cases handler with
  | sent _ => exact nomatch taken
  | idle =>
    have unsent : Automation.step prompts ⟨uBootCmd,.idle,executing,queue⟩ (.line buf success) =
        some ⟨uBootCmd,.sent true,executing,queue⟩ := by
      dsimp only [Automation.step] at sends ⊢
      rw [sends]
      simp [failed]
    rcases ttyContext_message sends with ⟨-,-,clear⟩ | ⟨other,-⟩
    · have none : pending ⟨uBootCmd,.sent true,executing,queue⟩ = 0 := sound.cleared (by simp) clear
      intro kept
      exact assign_lost rfl none (kept.later unsent)
    · exact nomatch other

theorem Sound.early {automation : Automation} (sound : automation.Sound)
    (unmet : ¬automation.InTime prompts .finish) : ¬Kept prompts automation [.finish,.assign true] := by
  obtain ⟨uBootCmd,handler,executing,queue⟩ := automation
  obtain ⟨boot,early⟩ := Classical.not_imp.mp unmet
  obtain rfl : executing = some .uBootCmd := boot
  obtain rfl : handler = .sent true := Classical.not_not.mp early
  have count := pending_finish ⟨uBootCmd,.sent true,some .uBootCmd,queue⟩ rfl
  have none : pending ⟨false,.sent true,none,queue⟩ = 0 := by
    have once := sound.once
    change queue.count .uBootCmd = 0
    rw [if_pos rfl] at count
    dsimp only at count
    omega
  intro kept
  exact assign_lost rfl none (kept.later rfl)

theorem clearing_lost {automation next : Automation} {value : Bool}
    (taken : automation.step prompts (.assign value) = some next)
    (unmet : ¬automation.InTime prompts (.assign value)) : ¬Kept prompts automation [.assign value] := by
  obtain ⟨uBootCmd,handler,executing,queue⟩ := automation
  obtain ⟨clears,left⟩ := Classical.not_imp.mp unmet
  intro kept
  have mirrors := (kept.later taken).start
  cases handler with
  | idle => exact nomatch taken
  | sent assigned =>
    dsimp only [Automation.step] at taken
    by_cases same : value = assigned
    · rw [if_pos same] at taken
      obtain rfl := Option.some.inj taken
      obtain ⟨flag,once⟩ := mirrors rfl
      have one : pending ⟨uBootCmd,.sent assigned,executing,queue⟩ = 1 :=
        Nat.le_antisymm once (Nat.one_le_iff_ne_zero.mpr left)
      have set : value = true := flag.mpr one
      rw [clears] at set
      exact nomatch set
    · rw [if_neg same] at taken
      exact nomatch taken

/-- A command that is not queued, or finished too early, leaves the flag set for good; one
whose flag is cleared early may be queued again. -/
theorem Sound.broken {automation next : Automation} (sound : automation.Sound) {action : Action}
    (taken : automation.step prompts action = some next) (unmet : ¬automation.InTime prompts action) :
    ∃ probe, Probe probe ∧ ¬Kept prompts automation (action::probe) := by
  cases action with
  | receive => exact absurd trivial unmet
  | post => exact absurd trivial unmet
  | line buf success => exact ⟨[.assign true],List.prefix_refl _,sound.unsent taken unmet⟩
  | finish => exact ⟨[.assign true],List.prefix_refl _,sound.early unmet⟩
  | assign value => exact ⟨[],List.nil_prefix,clearing_lost taken unmet⟩

theorem start_sound : start.Sound := ⟨nofun,by simp [start,pending],Nat.zero_le 1⟩

/-- In a run in which every boot command is queued, its flag set before the writer is done
and no login line clears it, the flag mirrors the command; after any other step it does not
once tty_context_handle has returned. -/
theorem bootCommand_mirrored (prompts : Prompts) (actions : List Action) :
    (Transition.Meets (step prompts) (InTime prompts) start actions → Kept prompts start actions) ∧
      (Transition.Probed (Kept prompts) Probe start actions ↔
        Transition.Meets (step prompts) (InTime prompts) start actions) :=
  Transition.throughout_probed Probe Sound (fun _ sound => sound.mirrored)
    (fun _ action _ sound => sound.step action) (fun automation _ _ => probe_inTime automation)
    (fun _ _ _ sound => sound.broken) start start_sound actions

/-- A queue that is full when the boot prompt comes. -/
theorem bootCommand_unsent : ¬∀ prompts actions, Kept prompts start actions := by
  intro always
  have kept := always ⟨[1],[61],[1]⟩ [.line [61,62,10] false,.assign true]
  have mirrors := ((kept.later rfl).later rfl).start rfl
  exact absurd (mirrors.1.mp rfl) (by decide)

end Automation
end Libsme.Serial
