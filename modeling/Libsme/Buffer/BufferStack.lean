import Libsme.Library.Ring

/-! The ring buffer of bufferstack.cpp. The two indices are `unsigned char`; their
comparisons and sums are made in `int`, here in `Nat`. -/
namespace Libsme.Buffer
open Libsme.Ring (contents contents_empty)

def cyclMax : Nat := 128

structure Cycl where
  cyclBuf : List UInt8
  cyclStart : UInt8
  cyclEnd : UInt8
  size : cyclBuf.length = cyclMax

def Cycl.store (cycl : Cycl) (index : UInt8) (ch : UInt8) : Cycl :=
  {cycl with
    cyclBuf := cycl.cyclBuf.set index.toNat ch
    size := by rw [List.length_set,cycl.size]}

def Cycl.load (cycl : Cycl) (index : UInt8) : UInt8 := cycl.cyclBuf.getD index.toNat 0

def cyclIncrease (s : UInt8) : Nat := if s.toNat = cyclMax-1 then 0 else s.toNat+1

def cyclIsFull (cycl : Cycl) : Bool := decide (cycl.cyclStart.toNat = cyclIncrease cycl.cyclEnd)

def cyclIsEmpty (cycl : Cycl) : Bool := decide (cycl.cyclStart = cycl.cyclEnd)

def cyclSet (cycl : Cycl) (a : UInt8) : Cycl :=
  if cycl.cyclEnd.toNat = cyclMax-1 then {cycl.store cycl.cyclEnd a with cyclEnd := 0}
  else {cycl.store cycl.cyclEnd a with cyclEnd := cycl.cyclEnd+1}

def cyclTake (cycl : Cycl) : UInt8 × Cycl :=
  if cycl.cyclStart.toNat = cyclMax-1 then (cycl.load 127,{cycl with cyclStart := 0})
  else (cycl.load cycl.cyclStart,{cycl with cyclStart := cycl.cyclStart+1})

def cyclAdd (cycl : Cycl) (ch : UInt8) : Cycl := if cyclIsFull cycl then cycl else cyclSet cycl ch

def cyclGet (cycl : Cycl) : UInt8 × Cycl := if cyclIsEmpty cycl then (0,cycl) else cyclTake cycl

inductive Call where
  | add (ch : UInt8)
  | get

/-- Runs the calls one after the other; the bytes that the gets return come with the state. -/
def run (cycl : Cycl) : List Call → List UInt8 × Cycl
  | [] => ([],cycl)
  | .add ch::rest => run (cyclAdd cycl ch) rest
  | .get::rest =>
    let (ch,next) := cyclGet cycl
    let (returned,last) := run next rest
    (ch::returned,last)

abbrev Queue := Ring.Fifo UInt8 (cyclMax-1)

/-- The same calls on the queue; a get of the empty queue returns 0. -/
def Queue.run (queue : Queue) : List Call → List UInt8 × Queue
  | [] => ([],queue)
  | .add ch::rest => Queue.run (queue.add ch) rest
  | .get::rest =>
    let (ch,next) := queue.get
    let (returned,last) := Queue.run next rest
    (ch.getD 0::returned,last)

/-- The buffer is well formed: both indices lie in the array. -/
structure Cycl.Inside (cycl : Cycl) : Prop where
  start : cycl.cyclStart.toNat < cyclMax
  finish : cycl.cyclEnd.toNat < cyclMax

def Cycl.stored (cycl : Cycl) : List UInt8 :=
  contents cycl.cyclBuf cycl.cyclStart.toNat cycl.cyclEnd.toNat

structure Cycl.Represents (cycl : Cycl) (queue : Queue) : Prop where
  inside : cycl.Inside
  items : cycl.stored = queue.items

theorem cyclIncrease_eq (s : UInt8) : cyclIncrease s = Ring.next cyclMax s.toNat := by
  unfold cyclIncrease Ring.next cyclMax
  split <;> split <;> omega

theorem succ_toNat {index : UInt8} (bound : index.toNat < cyclMax) (inner : ¬index.toNat = cyclMax-1) :
    (index+1).toNat = Ring.next cyclMax index.toNat := by
  have small : index.toNat+1 < cyclMax := by omega
  rw [UInt8.toNat_add,Ring.next,if_neg (Nat.ne_of_lt small)]
  exact Nat.mod_eq_of_lt (Nat.lt_trans small (by decide))

theorem cyclSet_cyclEnd {cycl : Cycl} (inside : cycl.Inside) (a : UInt8) :
    (cyclSet cycl a).cyclEnd.toNat = Ring.next cyclMax cycl.cyclEnd.toNat := by
  unfold cyclSet
  by_cases last : cycl.cyclEnd.toNat = cyclMax-1
  · rw [if_pos last,last]
    rfl
  · rw [if_neg last]
    exact succ_toNat inside.finish last

theorem cyclSet_cyclStart (cycl : Cycl) (a : UInt8) : (cyclSet cycl a).cyclStart = cycl.cyclStart := by
  unfold cyclSet
  split <;> rfl

theorem cyclSet_cyclBuf (cycl : Cycl) (a : UInt8) :
    (cyclSet cycl a).cyclBuf = cycl.cyclBuf.set cycl.cyclEnd.toNat a := by
  unfold cyclSet
  split <;> rfl

theorem cyclTake_value (cycl : Cycl) : (cyclTake cycl).1 = cycl.cyclBuf.getD cycl.cyclStart.toNat 0 := by
  unfold cyclTake
  split
  · rename_i last
    rw [last]
    rfl
  · rfl

theorem cyclTake_cyclStart {cycl : Cycl} (inside : cycl.Inside) :
    (cyclTake cycl).2.cyclStart.toNat = Ring.next cyclMax cycl.cyclStart.toNat := by
  unfold cyclTake
  by_cases last : cycl.cyclStart.toNat = cyclMax-1
  · rw [if_pos last,last]
    rfl
  · rw [if_neg last]
    exact succ_toNat inside.start last

theorem cyclTake_cyclEnd (cycl : Cycl) : (cyclTake cycl).2.cyclEnd = cycl.cyclEnd := by
  unfold cyclTake
  split <;> rfl

theorem cyclTake_cyclBuf (cycl : Cycl) : (cyclTake cycl).2.cyclBuf = cycl.cyclBuf := by
  unfold cyclTake
  split <;> rfl

theorem Cycl.Represents.full_iff {cycl : Cycl} {queue : Queue} (represents : cycl.Represents queue) :
    cyclIsFull cycl = true ↔ queue.items.length = cyclMax-1 := by
  have start := represents.inside.start
  have finish := represents.inside.finish
  have length := Ring.contents_length cycl.cyclBuf cycl.cyclStart.toNat cycl.cyclEnd.toNat
  rw [cyclIsFull,decide_eq_true_iff,cyclIncrease_eq,← represents.items,Cycl.stored,length,cycl.size]
  unfold Ring.next Ring.used
  unfold cyclMax at *
  split <;> split <;> omega

theorem Cycl.Represents.empty_iff {cycl : Cycl} {queue : Queue} (represents : cycl.Represents queue) :
    cyclIsEmpty cycl = true ↔ queue.items = [] := by
  have start := represents.inside.start
  have length := Ring.contents_length cycl.cyclBuf cycl.cyclStart.toNat cycl.cyclEnd.toNat
  rw [cyclIsEmpty,decide_eq_true_iff,← represents.items,← List.length_eq_zero_iff,Cycl.stored,length,
    cycl.size,Ring.used_eq_zero_iff start]
  exact UInt8.toNat_inj.symm

theorem Cycl.Represents.add {cycl : Cycl} {queue : Queue} (represents : cycl.Represents queue) (ch : UInt8) :
    (cyclAdd cycl ch).Represents (queue.add ch) := by
  have start := represents.inside.start
  have finish := represents.inside.finish
  have fits := queue.fits
  rw [cyclAdd]
  by_cases full : cyclIsFull cycl = true
  · have same : queue.add ch = queue := by
      rw [Ring.Fifo.add,dif_neg]
      rw [represents.full_iff.mp full]
      exact Nat.lt_irrefl _
    rw [if_pos full,same]
    exact represents
  · have room : queue.items.length < cyclMax-1 :=
      Nat.lt_of_le_of_ne fits fun length => full (represents.full_iff.mpr length)
    have free : cycl.cyclStart.toNat ≠ Ring.next cyclMax cycl.cyclEnd.toNat := by
      intro same
      apply full
      rw [cyclIsFull,decide_eq_true_iff,cyclIncrease_eq,same]
    rw [if_neg full]
    refine ⟨⟨?_,?_⟩,?_⟩
    · rw [cyclSet_cyclStart]
      exact start
    · rw [cyclSet_cyclEnd represents.inside]
      exact Ring.next_lt finish
    · rw [Cycl.stored,cyclSet_cyclStart,cyclSet_cyclEnd represents.inside,cyclSet_cyclBuf,
        Ring.Fifo.add_items,if_pos room,← represents.items]
      exact Ring.contents_add cycl.size start finish free ch

theorem Cycl.Represents.get {cycl : Cycl} {queue : Queue} (represents : cycl.Represents queue) :
    (cyclGet cycl).1 = queue.get.1.getD 0 ∧ (cyclGet cycl).2.Represents queue.get.2 := by
  have start := represents.inside.start
  have finish := represents.inside.finish
  have items := represents.items
  rw [cyclGet]
  by_cases empty : cyclIsEmpty cycl = true
  · have nothing := represents.empty_iff.mp empty
    rw [if_pos empty]
    refine ⟨by simp [Ring.Fifo.get,nothing],represents.inside,?_⟩
    rw [items,nothing]
    simp [Ring.Fifo.get,nothing]
  · have filled : cycl.cyclStart.toNat ≠ cycl.cyclEnd.toNat := by
      intro same
      apply empty
      rw [cyclIsEmpty,decide_eq_true_iff]
      exact UInt8.toNat_inj.mp same
    have taken := Ring.contents_get cycl.size start finish filled
    rw [← Cycl.stored,items] at taken
    rw [if_neg empty]
    refine ⟨?_,⟨?_,?_⟩,?_⟩
    · rw [cyclTake_value,Ring.Fifo.get_item,taken]
      rfl
    · rw [cyclTake_cyclStart represents.inside]
      exact Ring.next_lt start
    · rw [cyclTake_cyclEnd]
      exact finish
    · rw [Cycl.stored,cyclTake_cyclStart represents.inside,cyclTake_cyclEnd,cyclTake_cyclBuf,
        Ring.Fifo.get_items,taken]
      rfl

theorem Cycl.Represents.run {cycl : Cycl} {queue : Queue} (represents : cycl.Represents queue)
    (calls : List Call) : (Buffer.run cycl calls).1 = (Queue.run queue calls).1 ∧
      (Buffer.run cycl calls).2.Represents (Queue.run queue calls).2 := by
  induction calls generalizing cycl queue with
  | nil => exact ⟨rfl,represents⟩
  | cons call rest ih =>
    cases call with
    | add ch => exact ih (represents.add ch)
    | get =>
      obtain ⟨value,next⟩ := represents.get
      obtain ⟨returned,last⟩ := ih next
      refine ⟨?_,last⟩
      simp only [Buffer.run,Queue.run]
      rw [value,returned]

/-- What `main` starts with. -/
def Cycl.cleared (cycl : Cycl) : Cycl := {cycl with cyclStart := 0, cyclEnd := 0}

theorem Cycl.cleared_represents (cycl : Cycl) : cycl.cleared.Represents Ring.Fifo.empty :=
  have inside : (0 : UInt8).toNat < cyclMax := by decide
  ⟨⟨inside,inside⟩,contents_empty _ _⟩

/-- In every run from the empty buffer the calls return what a queue of 127 bytes returns,
and a call that finds it full or empty changes nothing. -/
theorem run_refines (initial : Cycl) (calls : List Call) :
    let (returned,cycl) := run initial.cleared calls
    let (expected,queue) := Queue.run Ring.Fifo.empty calls
    returned = expected ∧ cycl.cyclStart.toNat < cyclMax ∧ cycl.cyclEnd.toNat < cyclMax ∧
      cycl.stored = queue.items ∧ (queue.items.length = cyclMax-1 → ∀ ch, cyclAdd cycl ch = cycl) ∧
      (queue.items = [] → cyclGet cycl = (0,cycl)) := by
  obtain ⟨returned,represents⟩ := (Cycl.cleared_represents initial).run calls
  refine ⟨returned,represents.inside.start,represents.inside.finish,represents.items,?_,?_⟩
  · intro full ch
    rw [cyclAdd,if_pos (represents.full_iff.mpr full)]
  · intro empty
    rw [cyclGet,if_pos (represents.empty_iff.mpr empty)]

end Libsme.Buffer
