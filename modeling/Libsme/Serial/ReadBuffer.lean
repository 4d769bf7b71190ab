import Libsme.Library.Traced
import Libsme.Library.Transition
import Mathlib.Algebra.Order.Ring.Int

/-! `read_buffer` of serial_run.cpp between main, which reads into it, and
printf_thread_handle, which drains it. Both hold `rwlock`, so their turns do not overlap.
The stores into the three buffers are logged. -/
namespace Libsme.Serial

/-- READ_BUFFER_SIZE, sizeof(read_buffer) and sizeof(line_pr). -/
def readSize : Int := 256
def readBytes : Int := readSize+128
def lineBytes : Int := 128

inductive Store where
  | readBuffer (start : Int) (size : Nat)
  | linePr (size : Nat)
  | prBuffer (size : Nat)
deriving DecidableEq

def Store.inside : Store → Bool
  | .readBuffer start size => decide (0 ≤ start ∧ start+size ≤ readBytes)
  | .linePr size => decide (size ≤ lineBytes)
  | .prBuffer size => decide (size ≤ readSize)

/-- An `int` as the size_t that memcpy takes. -/
def sizeT (size : Int) : Nat := (size % 2^64).toNat

structure ReadBuffer where
  readStart : Int
  readEnd : Int
  overrun : Bool

namespace ReadBuffer

def empty : ReadBuffer := ⟨0,0,false⟩

/-- What main does with the result of a read: -1 for an error, which stores nothing. -/
def read (buffer : ReadBuffer) (size : Int) : Traced Store ReadBuffer := do
  Traced.emit (.readBuffer buffer.readEnd size.toNat)
  if size ≠ 0 then
    Traced.emit (.linePr (sizeT size))
    pure {buffer with readEnd := buffer.readEnd+size}
  else pure buffer

/-- The size that printf_thread_handle finds, and the indices after the drain. -/
def drain (buffer : ReadBuffer) : Traced Store (Int × ReadBuffer) := do
  let size := buffer.readEnd-buffer.readStart
  if size ≤ 0 then pure (size,buffer)
  else
    Traced.emit (.prBuffer size.toNat)
    if buffer.readEnd ≥ readSize then pure (size,{buffer with readStart := 0,readEnd := 0})
    else pure (size,{buffer with readStart := buffer.readEnd})

/-- After a store behind the end of its array nothing is known of what the program does. -/
def settle (log : List Store) (buffer : ReadBuffer) : ReadBuffer := {buffer with overrun := !log.all Store.inside}

inductive Turn where
  | read (size : Int)
  | drain

/-- A read of up to READ_BUFFER_SIZE bytes may return -1, 0 or up to that many. -/
def step (buffer : ReadBuffer) : Turn → Option ReadBuffer
  | .read size =>
    if buffer.overrun then none
    else if -1 ≤ size ∧ size ≤ readSize then some (settle (buffer.read size).log (buffer.read size).value)
    else none
  | .drain => if buffer.overrun then none else some (settle buffer.drain.log buffer.drain.value.2)

structure Ordered (buffer : ReadBuffer) : Prop where
  intact : buffer.overrun = false
  start : 0 ≤ buffer.readStart
  order : buffer.readStart ≤ buffer.readEnd

def Fits (buffer : ReadBuffer) : Turn → Prop
  | .read _ => buffer.readEnd+readSize ≤ readBytes
  | .drain => buffer.drain.value.1 ≤ readSize

def Kept (start : ReadBuffer) (turns : List Turn) : Prop :=
  Transition.Throughout step Ordered start turns ∧ Transition.Meets step Fits start turns

/-- What `line_pr` and the slack of 128 bytes are enough for: a read may end behind the slack
only if it ends at the threshold, and the drain comes before the next read. -/
def Room (buffer : ReadBuffer) : Turn → Prop
  | .read size => 0 ≤ size ∧ size ≤ lineBytes ∧ buffer.readEnd < readSize ∧
      (buffer.readEnd+size ≤ readBytes-readSize ∨ readSize ≤ buffer.readEnd+size)
  | .drain => True

structure Sound (buffer : ReadBuffer) : Prop extends buffer.Ordered where
  slack : buffer.readStart ≤ readBytes-readSize
  room : buffer.readEnd ≤ readBytes-readSize ∨ buffer.readEnd = readSize

@[simp] theorem settle_readStart (log : List Store) (buffer : ReadBuffer) :
    (settle log buffer).readStart = buffer.readStart := rfl
@[simp] theorem settle_readEnd (log : List Store) (buffer : ReadBuffer) :
    (settle log buffer).readEnd = buffer.readEnd := rfl

theorem sizeT_natural {size : Int} (least : 0 ≤ size) (most : size ≤ readSize) : (sizeT size : Int) = size := by
  unfold readSize at most
  rw [sizeT,Int.emod_eq_of_lt least (by omega),Int.toNat_of_nonneg least]

theorem sizeT_error : (sizeT (-1) : Int) = 2^64-1 := by decide

@[simp] theorem read_readStart (buffer : ReadBuffer) (size : Int) :
    (buffer.read size).value.readStart = buffer.readStart := by
  unfold read
  rw [Traced.bind_value]
  split <;> rfl

@[simp] theorem read_readEnd (buffer : ReadBuffer) (size : Int) :
    (buffer.read size).value.readEnd = buffer.readEnd+size := by
  unfold read
  rw [Traced.bind_value]
  split
  · rfl
  · rename_i nothing
    rw [not_not.mp nothing,Int.add_zero]
    rfl

theorem settle_intact {log : List Store} {buffer : ReadBuffer} :
    (settle log buffer).overrun = false ↔ ∀ store ∈ log, store.inside = true := by
  simp [settle]

theorem read_log {buffer : ReadBuffer} {size : Int} (data : size ≠ 0) :
    (buffer.read size).log = [.readBuffer buffer.readEnd size.toNat,.linePr (sizeT size)] := by
  simp [read,data]

/-- A read leaves every buffer intact just when it ends inside `read_buffer` and what it
gives, which is no error, has room in `line_pr`. -/
theorem read_intact {buffer : ReadBuffer} {size : Int} (least : -1 ≤ size) (most : size ≤ readSize)
    (start : 0 ≤ buffer.readEnd) :
    (settle (buffer.read size).log (buffer.read size).value).overrun = false ↔
      buffer.readEnd+size ≤ readBytes ∧ 0 ≤ size ∧ size ≤ lineBytes := by
  rw [settle_intact]
  by_cases data : size = 0
  · subst data
    simp [read,Store.inside,start,lineBytes]
  · rw [read_log data]
    simp only [List.forall_mem_cons,List.not_mem_nil,false_implies,implies_true,and_true,Store.inside,
      decide_eq_true_iff]
    rcases Int.lt_or_le size 0 with failed | natural
    · obtain rfl : size = -1 := by omega
      rw [sizeT_error]
      unfold lineBytes
      omega
    · rw [sizeT_natural natural most,Int.toNat_of_nonneg natural]
      constructor
      · rintro ⟨⟨-,inside⟩,short⟩
        exact ⟨inside,natural,short⟩
      · rintro ⟨inside,-,short⟩
        exact ⟨⟨start,inside⟩,short⟩

theorem drain_size (buffer : ReadBuffer) : buffer.drain.value.1 = buffer.readEnd-buffer.readStart := by
  unfold drain
  dsimp only
  split
  · rfl
  · rw [Traced.bind_value]
    split <;> rfl

theorem drain_intact {buffer : ReadBuffer} :
    (settle buffer.drain.log buffer.drain.value.2).overrun = false ↔ buffer.readEnd-buffer.readStart ≤ readSize := by
  rw [settle_intact]
  by_cases nothing : buffer.readEnd-buffer.readStart ≤ 0
  · simp only [drain,if_pos nothing,Traced.pure_log,List.not_mem_nil,false_implies,implies_true,true_iff]
    unfold readSize
    omega
  · have log : buffer.drain.log = [.prBuffer (buffer.readEnd-buffer.readStart).toNat] := by
      simp only [drain,if_neg nothing]
      split <;> rfl
    rw [log]
    simp only [List.forall_mem_cons,List.not_mem_nil,false_implies,implies_true,and_true,Store.inside,
      decide_eq_true_iff]
    rw [Int.toNat_of_nonneg (by omega)]

theorem drain_next {buffer : ReadBuffer} (order : buffer.readStart ≤ buffer.readEnd) :
    buffer.drain.value.2.readStart = buffer.drain.value.2.readEnd ∧
      (buffer.drain.value.2.readEnd = 0 ∨ buffer.drain.value.2.readEnd = buffer.readEnd) := by
  unfold drain
  dsimp only
  split
  · rename_i nothing
    exact ⟨Int.le_antisymm order (Int.le_of_sub_nonpos nothing),Or.inr rfl⟩
  · rw [Traced.bind_value]
    split
    · exact ⟨rfl,Or.inl rfl⟩
    · exact ⟨rfl,Or.inr rfl⟩

theorem drain_reset {buffer : ReadBuffer} (filled : buffer.readStart < buffer.readEnd)
    (threshold : readSize ≤ buffer.readEnd) : buffer.drain.value.2.readEnd = 0 := by
  have size : ¬buffer.readEnd-buffer.readStart ≤ 0 := by omega
  simp [drain,size,threshold]

theorem drain_keeps {buffer : ReadBuffer} (below : buffer.readEnd < readSize) :
    buffer.drain.value.2.readEnd = buffer.readEnd := by
  have inner : ¬buffer.readEnd ≥ readSize := by omega
  unfold drain
  dsimp only
  rw [if_neg inner]
  split <;> rfl

theorem step_read {buffer next : ReadBuffer} {size : Int} (taken : buffer.step (.read size) = some next) :
    -1 ≤ size ∧ size ≤ readSize ∧ next = settle (buffer.read size).log (buffer.read size).value := by
  rw [step] at taken
  split at taken
  · exact nomatch taken
  · split at taken
    · rename_i possible
      exact ⟨possible.1,possible.2,(Option.some.inj taken).symm⟩
    · exact nomatch taken

theorem step_drain {buffer next : ReadBuffer} (taken : buffer.step .drain = some next) :
    next = settle buffer.drain.log buffer.drain.value.2 := by
  rw [step] at taken
  split at taken
  · exact nomatch taken
  · exact (Option.some.inj taken).symm

theorem Sound.fits {buffer : ReadBuffer} (sound : buffer.Sound) {turn : Turn} (room : buffer.Room turn) :
    buffer.Fits turn := by
  obtain ⟨⟨-,start,order⟩,slack,bound⟩ := sound
  cases turn with
  | read size =>
    have below := room.2.2.1
    unfold Fits readBytes readSize at *
    omega
  | drain =>
    rw [Fits,drain_size]
    unfold readBytes readSize at *
    omega

theorem Sound.read {buffer : ReadBuffer} (sound : buffer.Sound) {size : Int} (room : buffer.Room (.read size)) :
    (settle (buffer.read size).log (buffer.read size).value).Sound := by
  obtain ⟨natural,short,below,finish⟩ := room
  obtain ⟨⟨-,start,order⟩,slack,bound⟩ := sound
  have inside : buffer.readEnd+size ≤ readBytes := by
    unfold readBytes readSize lineBytes at *
    omega
  refine ⟨⟨?_,?_,?_⟩,?_,?_⟩
  · apply (read_intact (by omega) (by unfold readSize lineBytes at *; omega) (by omega)).mpr
    exact ⟨inside,natural,short⟩
  · rw [settle_readStart,read_readStart]
    exact start
  · rw [settle_readStart,settle_readEnd,read_readStart,read_readEnd]
    omega
  · rw [settle_readStart,read_readStart]
    exact slack
  · rw [settle_readEnd,read_readEnd]
    unfold readBytes readSize lineBytes at *
    omega

theorem Sound.drained {buffer : ReadBuffer} (sound : buffer.Sound) :
    buffer.drain.value.2.readEnd ≤ readBytes-readSize := by
  obtain ⟨⟨-,start,order⟩,slack,bound⟩ := sound
  rcases bound with short | threshold
  · obtain ⟨-,reset | kept⟩ := drain_next order
    · rw [reset]
      unfold readBytes
      omega
    · rw [kept]
      exact short
  · have apart : buffer.readStart < buffer.readEnd := by
      unfold readBytes readSize at *
      omega
    rw [drain_reset apart (Int.le_of_eq threshold.symm)]
    unfold readBytes
    omega

theorem Sound.drain {buffer : ReadBuffer} (sound : buffer.Sound) :
    (settle buffer.drain.log buffer.drain.value.2).Sound := by
  have nonnegative := Int.le_trans sound.start sound.order
  obtain ⟨empty,finish⟩ := drain_next sound.order
  have most := sound.drained
  refine ⟨⟨?_,?_,Int.le_of_eq empty⟩,?_,Or.inl most⟩
  · apply drain_intact.mpr
    have fits := @Sound.fits buffer sound .drain trivial
    rwa [Fits,drain_size] at fits
  · rw [settle_readStart]
    rcases finish with reset | kept <;> omega
  · rw [settle_readStart,empty]
    exact most

theorem Sound.step {buffer next : ReadBuffer} (sound : buffer.Sound) (turn : Turn)
    (taken : buffer.step turn = some next) (room : buffer.Room turn) : next.Sound := by
  cases turn with
  | read size =>
    obtain ⟨-,-,rfl⟩ := step_read taken
    exact sound.read room
  | drain =>
    obtain rfl := step_drain taken
    exact sound.drain

theorem Sound.kept {start : ReadBuffer} (sound : start.Sound) {turns : List Turn}
    (room : Transition.Meets ReadBuffer.step Room start turns) : Kept start turns :=
  have preserved := fun _ turn _ (sound : Sound _) => sound.step turn
  ⟨room.throughout Sound preserved (fun _ sound => sound.toOrdered) sound,
    room.weaken Sound preserved (fun _ _ sound => sound.fits) sound⟩

/-- A drain and a read without data show what the turns before them have left. -/
def Probe (probe : List Turn) : Prop := probe <+: [.drain,.read 0]

theorem Kept.later (buffer : ReadBuffer) (turn : Turn) (next : ReadBuffer) (rest : List Turn)
    (taken : buffer.step turn = some next) (kept : Kept buffer (turn::rest)) : Kept next rest :=
  ⟨kept.1.later taken,kept.2.later taken⟩

theorem Sound.probe {buffer : ReadBuffer} (sound : buffer.Sound) {probe : List Turn} (isProbe : Probe probe) :
    Transition.Meets ReadBuffer.step Room buffer probe := by
  refine Transition.Meets.of_prefix ?_ isProbe
  intro drained taken
  obtain rfl := step_drain taken
  refine ⟨trivial,?_⟩
  intro next _
  have most := sound.drained
  refine ⟨⟨Int.le_refl 0,?_,?_,Or.inl ?_⟩,trivial⟩
  · unfold lineBytes
    omega
  · rw [settle_readEnd]
    unfold readBytes readSize at *
    omega
  · rw [settle_readEnd,Int.add_zero]
    exact most

/-- Until a store is out of bounds, a drain and an empty read can follow. -/
theorem step_drain_read {buffer : ReadBuffer} (kept : Kept buffer [.drain,.read 0]) :
    buffer.drain.value.2.readEnd+readSize ≤ readBytes := by
  have drained : buffer.step .drain = some (settle buffer.drain.log buffer.drain.value.2) := by
    rw [step,if_neg (by simp [kept.1.start.intact])]
  have settled := (kept.1.later drained).start.intact
  have possible : -1 ≤ (0 : Int) ∧ 0 ≤ readSize := by decide
  have again := ((kept.2.later drained) _ (by rw [step,if_neg (by simp [settled]),if_pos possible])).1
  rw [Fits,settle_readEnd] at again
  exact again

/-- The turn without room, or the drain and the read that come next, go out of bounds. -/
theorem Room.broken {buffer next : ReadBuffer} {turn : Turn} (sound : buffer.Sound)
    (taken : buffer.step turn = some next) (unmet : ¬buffer.Room turn) :
    ∃ probe, Probe probe ∧ ¬Kept buffer (turn::probe) := by
  cases turn with
  | drain => exact absurd trivial unmet
  | read size =>
    refine ⟨[.drain,.read 0],List.prefix_refl _,?_⟩
    intro kept
    have now := (kept.2 _ taken).1
    have rest := kept.later _ _ _ _ taken
    obtain ⟨least,most,rfl⟩ := step_read taken
    obtain ⟨inside,natural,short⟩ := (read_intact least most (by have := sound.start; have := sound.order; omega)).mp
      rest.1.start.intact
    have below : buffer.readEnd < readSize := by
      unfold Fits readBytes readSize at *
      omega
    refine unmet ⟨natural,short,below,?_⟩
    by_contra between
    obtain ⟨past,under⟩ := not_or.mp between
    have again := step_drain_read rest
    rw [drain_keeps,settle_readEnd,read_readEnd] at again
    · exact past (by omega)
    · rw [settle_readEnd,read_readEnd]
      exact Int.not_le.mp under

theorem empty_sound : empty.Sound := ⟨⟨rfl,Int.le_refl 0,Int.le_refl 0⟩,by decide,by decide⟩

/-- With room at every read the indices stay ordered and all copies inside the buffers; and
without it a drain and a read, whatever else follows, take the run out of bounds. -/
theorem readBuffer_kept (turns : List Turn) :
    (Transition.Meets ReadBuffer.step Room empty turns → Kept empty turns) ∧
      (Transition.Probed Kept Probe empty turns ↔ Transition.Meets ReadBuffer.step Room empty turns) :=
  ⟨empty_sound.kept,
    Transition.probed_iff_meets Kept Probe Sound (fun _ turn _ sound => sound.step turn) Kept.later
      (fun _ _ sound => sound.kept) (fun _ _ sound => sound.probe) (fun _ _ _ sound => Room.broken sound)
      empty empty_sound turns⟩

/-- Three reads of 100 bytes before a drain. -/
theorem readBuffer_third_read : ¬∀ turns, Kept empty turns := by
  intro always
  have fits := (always [.read 100,.read 100,.read 100]).2
  have third : (200 : Int)+readSize ≤ readBytes := (((fits.later rfl).later rfl) _ rfl).1
  unfold readBytes readSize at third
  omega

end ReadBuffer
end Libsme.Serial
