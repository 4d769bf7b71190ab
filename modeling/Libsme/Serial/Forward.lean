import Libsme.Library.Interleaving
import Libsme.Serial.BootCommand

/-! What input_thread_handle, pipe_thread_handle and tty_write_thread_handle write to the
serial port. Each reads, then writes what is to be written, one block a write; between two
steps of one of them the others may do any number of theirs. -/
namespace Libsme.Serial
open Interleaving (Interleaved)
open Memory (cstr fetch overwrite)

inductive Source where
  | stdin
  | fifo
  | messages
deriving DecidableEq

instance : Fintype Source := ⟨{.stdin,.fifo,.messages},by intro source; cases source <;> simp⟩

/-- `char ch` after `ch=getc(stdin)`; EOF is -1. -/
def inputChar : Option UInt8 → UInt8
  | some ch => ch
  | none => 0xFF

def pipeSize : Nat := 100

/-- The bytes that pipe_thread_handle writes after a read with the given result; a write of
-1 bytes fails. -/
def pipeBlock (buf : List UInt8) : Option (List UInt8) → List UInt8
  | none => []
  | some data =>
    let buf := overwrite buf 0 data
    let buf := overwrite buf 0 (List.replicate pipeSize 0)
    fetch buf 0 data.length

def messageStrings (bootcmd : List UInt8) : Message → List (List UInt8)
  | .uBootCmd => [cstr bootcmd,[0x0D,0x0A],[0x0D,0x0A]]
  | .login => [[0x72,0x6F,0x6F,0x74,0x0A],[0x72,0x6F,0x6F,0x74,0x0A]]
  | .reboot => [[0x72,0x65,0x62,0x6F,0x6F,0x74,0x0A]]
  | .normal => []

/-- For each thread the blocks it is going to write, and the bytes its reads have given;
`msgs` is the writer's variable, which a msgrcv that fails leaves as it is. -/
structure Port where
  msgs : Message
  blocks : Source → List (List UInt8)
  given : Source → List UInt8
  written : List UInt8

namespace Port

inductive Action where
  | getc (result : Option UInt8)
  | readPipe (buf : List UInt8) (result : Option (List UInt8))
  | msgrcv (result : Option Message)
  | write (source : Source)

def offer (port : Port) (source : Source) (blocks : List (List UInt8)) (data : List UInt8) : Port :=
  {port with
    blocks := Function.update port.blocks source blocks
    given := Function.update port.given source (port.given source ++ data)}

def step (bootcmd : List UInt8) (port : Port) : Action → Option Port
  | .getc result =>
    if port.blocks .stdin = [] then some (port.offer .stdin [[inputChar result]] result.toList) else none
  | .readPipe buf result =>
    if port.blocks .fifo = [] ∧ buf.length = pipeSize ∧ (result.getD []).length ≤ pipeSize then
      some (port.offer .fifo [pipeBlock buf result] (result.getD []))
    else none
  | .msgrcv result =>
    if port.blocks .messages = [] then
      let msgs := result.getD port.msgs
      let called := (result.map (messageStrings bootcmd)).getD []
      some {port.offer .messages (messageStrings bootcmd msgs) called.flatten with msgs := msgs}
    else none
  | .write source =>
    match port.blocks source with
    | [] => none
    | block::rest => some {port with
        blocks := Function.update port.blocks source rest
        written := port.written ++ block}

def start (msgs : Message) : Port := ⟨msgs,fun _ => [],fun _ => [],[]⟩

/-- What is written interleaves what each source has given, up to what its thread is still
going to write. -/
def Forwards (port : Port) : Prop :=
  ∃ sent : Source → List UInt8, Interleaved sent port.written ∧
    ∀ source, sent source ++ (port.blocks source).flatten = port.given source

/-- The reads that are forwarded: stdin does not end, the FIFO gives NULs only, and a
msgrcv does not fail after a message that calls for a string. -/
def Clean (bootcmd : List UInt8) (port : Port) : Action → Prop
  | .getc result => result.isSome
  | .readPipe _ result => ∀ byte ∈ result.getD [], byte = 0
  | .msgrcv result => result.isSome ∨ (messageStrings bootcmd port.msgs).flatten = []
  | .write _ => True

theorem pipeBlock_eq {buf : List UInt8} {result : Option (List UInt8)} (size : buf.length = pipeSize)
    (fits : (result.getD []).length ≤ pipeSize) :
    pipeBlock buf result = List.replicate (result.getD []).length 0 := by
  cases result with
  | none => rfl
  | some data =>
    have copied : (overwrite buf 0 data).length = pipeSize := by
      rw [Memory.overwrite_length buf 0 data (by rw [Nat.zero_add,size]; exact fits),size]
    have cleared : overwrite (overwrite buf 0 data) 0 (List.replicate pipeSize 0) =
        List.replicate pipeSize 0 := by
      rw [overwrite,List.take_zero,List.nil_append,List.length_replicate,
        List.drop_eq_nil_of_le (by omega),List.append_nil]
    have inside : 0+data.length ≤ (List.replicate pipeSize (0 : UInt8)).length := by
      rw [Nat.zero_add,List.length_replicate]
      exact fits
    rw [pipeBlock,cleared,Memory.fetch_eq_take_drop _ _ _ inside,List.drop_zero,List.take_replicate]
    exact congrArg (List.replicate · 0) (Nat.min_eq_left fits)

theorem Forwards.offer {port : Port} (forwards : port.Forwards) {source : Source} (idle : port.blocks source = [])
    {blocks : List (List UInt8)} {data : List UInt8} (same : blocks.flatten = data) :
    (port.offer source blocks data).Forwards := by
  obtain ⟨sent,interleaved,each⟩ := forwards
  refine ⟨sent,interleaved,?_⟩
  intro other
  dsimp only [Port.offer]
  by_cases this : other = source
  · subst this
    have given := each other
    rw [idle,List.flatten_nil,List.append_nil] at given
    rw [Function.update_self,Function.update_self,same,given]
  · rw [Function.update_of_ne this,Function.update_of_ne this]
    exact each other

theorem Forwards.write {port : Port} (forwards : port.Forwards) {source : Source} {block : List UInt8}
    {rest : List (List UInt8)} (blocks : port.blocks source = block::rest) :
    Forwards {port with
      blocks := Function.update port.blocks source rest
      written := port.written ++ block} := by
  obtain ⟨sent,interleaved,each⟩ := forwards
  refine ⟨_,interleaved.send source block,?_⟩
  intro other
  dsimp only
  by_cases this : other = source
  · subst this
    have given := each other
    rw [blocks,List.flatten_cons,← List.append_assoc] at given
    rw [Function.update_self,Function.update_self,given]
  · rw [Function.update_of_ne this,Function.update_of_ne this]
    exact each other

theorem Forwards.balance {port : Port} (forwards : port.Forwards) (p : UInt8 → Bool) :
    ∑ source, (port.given source).countP p =
      port.written.countP p + ∑ source, (port.blocks source).flatten.countP p := by
  obtain ⟨sent,interleaved,each⟩ := forwards
  rw [interleaved.countP,← Finset.sum_add_distrib]
  apply Finset.sum_congr rfl
  intro source _
  rw [← each source,List.countP_append]

theorem sum_update {β : Type} (weight : β → Nat) (values : Source → β) (source : Source) (value : β) :
    ∑ other, weight (Function.update values source value other) + weight (values source) =
      ∑ other, weight (values other) + weight value := by
  have expand : ∀ f : Source → Nat, ∑ other, f other = f .stdin + (f .fifo + f .messages) := fun f => rfl
  rw [expand,expand]
  cases source <;> simp <;> omega

/-- A read is only forwarded if what its thread writes has the same bytes. -/
theorem Forwards.offered {port : Port} (forwards : port.Forwards) {source : Source}
    (idle : port.blocks source = []) {blocks : List (List UInt8)} {data : List UInt8}
    (offered : (port.offer source blocks data).Forwards) (p : UInt8 → Bool) :
    data.countP p = blocks.flatten.countP p := by
  have before := forwards.balance p
  have after := offered.balance p
  have given := sum_update (List.countP p) port.given source (port.given source ++ data)
  have planned := sum_update (fun blocks => blocks.flatten.countP p) port.blocks source blocks
  dsimp only [Port.offer] at after
  rw [idle] at planned
  rw [List.countP_append] at given
  simp only [List.flatten_nil,List.countP_nil] at planned
  omega

theorem start_forwards (msgs : Message) : (start msgs).Forwards :=
  ⟨fun _ => [],Interleaving.interleaved_empty,fun _ => rfl⟩

variable {bootcmd : List UInt8}

theorem step_getc {port next : Port} {result : Option UInt8} (taken : port.step bootcmd (.getc result) = some next) :
    port.blocks .stdin = [] ∧ next = port.offer .stdin [[inputChar result]] result.toList := by
  dsimp only [Port.step] at taken
  split at taken
  · exact ⟨‹_›,(Option.some.inj taken).symm⟩
  · exact nomatch taken

theorem step_readPipe {port next : Port} {buf : List UInt8} {result : Option (List UInt8)}
    (taken : port.step bootcmd (.readPipe buf result) = some next) : port.blocks .fifo = [] ∧
      next = port.offer .fifo [List.replicate (result.getD []).length 0] (result.getD []) := by
  dsimp only [Port.step] at taken
  split at taken
  · rename_i ready
    obtain ⟨idle,size,fits⟩ := ready
    rw [pipeBlock_eq size fits] at taken
    exact ⟨idle,(Option.some.inj taken).symm⟩
  · exact nomatch taken

theorem step_msgrcv {port next : Port} {result : Option Message}
    (taken : port.step bootcmd (.msgrcv result) = some next) : port.blocks .messages = [] ∧
      next = {port.offer .messages (messageStrings bootcmd (result.getD port.msgs))
        ((result.map (messageStrings bootcmd)).getD []).flatten with msgs := result.getD port.msgs} := by
  dsimp only [Port.step] at taken
  split at taken
  · exact ⟨‹_›,(Option.some.inj taken).symm⟩
  · exact nomatch taken

theorem Forwards.step {port next : Port} (action : Action) (forwards : port.Forwards)
    (taken : port.step bootcmd action = some next) (clean : port.Clean bootcmd action) : next.Forwards := by
  cases action with
  | getc result =>
    obtain ⟨idle,rfl⟩ := step_getc taken
    obtain ⟨ch,rfl⟩ := Option.isSome_iff_exists.mp clean
    exact forwards.offer idle rfl
  | readPipe buf result =>
    obtain ⟨idle,rfl⟩ := step_readPipe taken
    apply forwards.offer idle
    rw [List.flatten_singleton]
    exact (List.eq_replicate_of_mem clean).symm
  | msgrcv result =>
    obtain ⟨idle,rfl⟩ := step_msgrcv taken
    have called : (messageStrings bootcmd (result.getD port.msgs)).flatten =
        ((result.map (messageStrings bootcmd)).getD []).flatten := by
      cases result with
      | some message => rfl
      | none =>
        rcases clean with received | silent
        · exact nomatch received
        · exact silent
    exact forwards.offer idle called
  | write source =>
    dsimp only [Port.step] at taken
    split at taken
    · exact nomatch taken
    · rename_i block rest blocks
      obtain rfl := Option.some.inj taken
      exact forwards.write blocks

theorem Forwards.needed {port next : Port} (action : Action) (forwards : port.Forwards)
    (taken : port.step bootcmd action = some next) (after : next.Forwards) : port.Clean bootcmd action := by
  cases action with
  | getc result =>
    obtain ⟨idle,rfl⟩ := step_getc taken
    have count := forwards.offered idle after fun _ => true
    cases result with
    | some ch => rfl
    | none => exact absurd count Nat.zero_ne_one
  | readPipe buf result =>
    obtain ⟨idle,rfl⟩ := step_readPipe taken
    have count := forwards.offered idle after fun byte => byte == 0
    rw [List.flatten_singleton,List.countP_replicate,if_pos (beq_self_eq_true 0)] at count
    intro byte member
    exact beq_iff_eq.mp (List.countP_eq_length.mp count byte member)
  | msgrcv result =>
    obtain ⟨idle,rfl⟩ := step_msgrcv taken
    cases result with
    | some message => exact Or.inl rfl
    | none =>
      have count := forwards.offered idle after fun _ => true
      rw [List.countP_true] at count
      exact Or.inr (List.length_eq_zero_iff.mp count.symm)
  | write source => trivial

/-- In exactly the runs whose reads are clean, what is written interleaves what was given. -/
theorem forward_iff (bootcmd : List UInt8) (msgs : Message) (actions : List Action) :
    Transition.Throughout (Port.step bootcmd) Forwards (start msgs) actions ↔
      Transition.Meets (Port.step bootcmd) (Clean bootcmd) (start msgs) actions :=
  Transition.throughout_iff_meets Forwards (fun _ forwards => forwards)
    (fun _ action _ forwards => forwards.step action) (fun _ action _ forwards => forwards.needed action)
    (start msgs) (start_forwards msgs) actions

/-- A byte from the FIFO is written as NUL. -/
theorem forward_fifo_cleared : ¬∀ bootcmd msgs actions,
    Transition.Throughout (Port.step bootcmd) Forwards (start msgs) actions := by
  intro always
  have holds := always [] .normal [.readPipe (List.replicate pipeSize 0) (some [0x41])]
  have after := (holds.later rfl).start
  have count := (start_forwards .normal).offered rfl after fun byte => byte == 0
  exact absurd count (by decide)

end Port
end Libsme.Serial
