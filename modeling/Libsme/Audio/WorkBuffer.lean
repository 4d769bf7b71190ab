import Libsme.Audio.Wavefile
import Libsme.Library.Traced

/-! test_wavefile with its memory: the caller's buffer, the work buffer of `blimit` bytes,
and a descriptor whose reads deliver what they like. Every store to the work buffer is
logged. test_wavefile of `Wavefile` is what remains without them. -/
namespace Libsme.Audio.WorkBuffer
open Memory (fetch overwrite)
open Semantics Traced
open Semantics.Rfc4648 (ascii)

/-- What the system decides: how many bytes a call of read delivers at most, and the bytes
that realloc adds. -/
structure System where
  piece : Nat → Nat
  fresh : Nat → UInt8
  delivers : ∀ call, 0 < piece call

structure Fd where
  unread : List UInt8
  calls : Nat

/-- The bytes that a store keeps in the work buffer, and its size. -/
structure Held where
  bytes : Nat
  blimit : Nat

structure Work where
  buffer : List UInt8
  size : Nat
  blimit : Nat
  fd : Fd

section Calls
variable (system : System)

def Fd.read (fd : Fd) (count : Nat) : List UInt8 × Fd :=
  let res := min count (system.piece fd.calls)
  (fd.unread.take res,⟨fd.unread.drop res,fd.calls+1⟩)

/-- Stores at `offset`; the result is the number of bytes. -/
def safeRead (work : Work) (offset count : Nat) : Traced Held (Nat × Work) :=
  if count = 0 then pure (0,work)
  else
    let bytes := (work.fd.read system count).1
    let fd := (work.fd.read system count).2
    if bytes.length = 0 then pure (0,{work with fd := fd})
    else do
      emit ⟨offset+bytes.length,work.blimit⟩
      let (result,work) ← safeRead {work with buffer := overwrite work.buffer offset bytes,fd := fd}
        (offset+bytes.length) (count-bytes.length)
      pure (bytes.length+result,work)
termination_by count
decreasing_by exact Nat.sub_lt (Nat.pos_of_ne_zero ‹_›) (Nat.pos_of_ne_zero ‹_›)

def checkWavefileSpace (work : Work) (len : Nat) : Work :=
  if len > work.blimit then
    {work with buffer := work.buffer ++ (List.range (len-work.blimit)).map system.fresh,blimit := len}
  else work

def testWavefileRead (work : Work) (reqsize : Nat) : OptionT (Traced Held) Work :=
  if work.size ≥ reqsize then pure work
  else do
    let (read,next) ← safeRead system work work.size (reqsize-work.size)
    if read ≠ reqsize-work.size then failure else pure {next with size := reqsize}

/-- The memmove to the front of what follows `len` bytes. -/
def Work.move (work : Work) (len : Nat) : Traced Held Work :=
  if work.size > len then do
    emit ⟨work.size-len,work.blimit⟩
    pure {work with buffer := overwrite work.buffer 0 (fetch work.buffer len (work.size-len)),size := work.size-len}
  else pure {work with size := work.size-len}

def seekChunk (wanted : List UInt8) (bigEndian : Bool) : Nat → Work → OptionT (Traced Held) (Nat × Work)
  | 0, _ => failure
  | turns+1, work => do
    let work ← testWavefileRead system (checkWavefileSpace system work 8) 8
    let type := fetch work.buffer 0 4
    let len := toCpu (fetch work.buffer 4 4) bigEndian
    let work ← work.move 8
    if type = wanted then pure (len,work)
    else do
      let work ← testWavefileRead system (checkWavefileSpace system work (pad len)) (pad len)
      let work ← work.move (pad len)
      seekChunk wanted bigEndian turns work

/-- What the caller finds: the result, its buffer, the descriptor and what is global. -/
structure Returned where
  result : Nat
  buffer : List UInt8
  fd : Fd
  hwparams : Hwparams
  pbrecCount : Nat

/-- The bytes behind the header, in a new work buffer. -/
def workOn (buffer : List UInt8) (size : Nat) (fd : Fd) : Traced Held Work :=
  let work : Work := ⟨[],0,0,fd⟩
  if size > 12 then do
    let work := checkWavefileSpace system work (size-12)
    emit ⟨size-12,work.blimit⟩
    pure {work with buffer := overwrite work.buffer 0 (fetch buffer 12 (size-12)),size := size-12}
  else pure work

/-- An exit has no result, and none is the result -1. -/
def testWavefile (buffer : List UInt8) (size : Nat) (fd : Fd) (pbrecCount : Nat) :
    OptionT (Traced Held) (Option Returned) :=
  if size < 12 then pure none
  else if fetch buffer 0 4 ≠ ascii "RIFF" ∧ fetch buffer 0 4 ≠ ascii "RIFX" then pure none
  else if fetch buffer 8 4 ≠ ascii "WAVE" then pure none
  else do
    let bigEndian := decide (fetch buffer 0 4 ≠ ascii "RIFF")
    let turns := size+fd.unread.length
    let work ← workOn system buffer size fd
    let (len,work) ← seekChunk system (ascii "fmt ") bigEndian turns work
    let len := pad len
    if len < 16 then failure
    else do
      let work ← testWavefileRead system (checkWavefileSpace system work len) len
      match testFmt bigEndian len work.buffer with
      | none => failure
      | some hwparams => do
        let work ← work.move len
        let (len,work) ← seekChunk system (ascii "data") bigEndian turns work
        let pbrecCount := if len < pbrecCount ∧ len < 0x7FFFFFFE then len else pbrecCount
        pure (some ⟨work.size,overwrite buffer 0 (fetch work.buffer 0 work.size),work.fd,hwparams,pbrecCount⟩)

end Calls

def Held.Within (held : Held) : Prop := held.bytes ≤ held.blimit

structure Work.Sound (work : Work) : Prop where
  sized : work.buffer.length = work.blimit
  fits : work.size ≤ work.blimit

def Work.reader (work : Work) : Reader := ⟨work.buffer.take work.size,work.fd.unread⟩

section Steps
variable {system : System}

theorem read_next (fd : Fd) (count : Nat) :
    (fd.read system count).1.length ≤ count ∧
      (fd.read system count).1 ++ (fd.read system count).2.unread.take (count-(fd.read system count).1.length) =
        fd.unread.take count ∧
      (fd.read system count).2.unread.drop (count-(fd.read system count).1.length) = fd.unread.drop count := by
  obtain ⟨res,delivered⟩ : ∃ res, res = min count (system.piece fd.calls) := ⟨_,rfl⟩
  have few : res ≤ count := delivered ▸ Nat.min_le_left _ _
  rw [Fd.read,← delivered]
  dsimp only
  rcases Nat.le_total res fd.unread.length with enough | short
  · have length : (fd.unread.take res).length = res := List.length_take_of_le enough
    rw [length,← List.take_add,List.drop_drop,Nat.add_sub_cancel' few]
    exact ⟨few,rfl,rfl⟩
  · rw [List.take_of_length_le short,List.drop_of_length_le short,
      List.take_of_length_le (short.trans few),List.drop_of_length_le (short.trans few)]
    simpa using short.trans few

theorem read_nothing {fd : Fd} {count : Nat} (asked : count ≠ 0) (nothing : (fd.read system count).1.length = 0) :
    fd.unread = [] ∧ (fd.read system count).2.unread = [] := by
  have piece := system.delivers fd.calls
  rw [Fd.read] at nothing
  dsimp only at nothing
  rw [List.length_take] at nothing
  have ended : fd.unread = [] := List.length_eq_zero_iff.mp (by omega)
  simp [Fd.read,ended]

/-- In whatever pieces they come, the bytes that are read are the next ones. -/
theorem safeRead_stores (work : Work) (offset count : Nat) (inside : offset+count ≤ work.buffer.length)
    (sized : work.buffer.length = work.blimit) :
    (∃ calls, (safeRead system work offset count).value =
      ((work.fd.unread.take count).length,{work with
        buffer := overwrite work.buffer offset (work.fd.unread.take count)
        fd := ⟨work.fd.unread.drop count,calls⟩})) ∧
      Always Held.Within (safeRead system work offset count) := by
  fun_induction safeRead system work offset count with
  | case1 work offset =>
    refine ⟨⟨work.fd.calls,?_⟩,always_pure _ _⟩
    simp [overwrite]
  | case2 work offset count asked bytes fd nothing =>
    obtain ⟨ended,after⟩ := read_nothing asked nothing
    refine ⟨⟨fd.calls,?_⟩,always_pure _ _⟩
    have same : fd = ⟨[],fd.calls⟩ := by rw [← after]
    rw [ended,pure_value,same]
    simp [overwrite]
  | case3 work offset count asked bytes fd delivered ih =>
    obtain ⟨few,next,rest⟩ := @read_next system work.fd count
    change bytes.length ≤ count at few
    change bytes ++ fd.unread.take (count-bytes.length) = _ at next
    change fd.unread.drop (count-bytes.length) = _ at rest
    have length : (overwrite work.buffer offset bytes).length = work.buffer.length :=
      Memory.overwrite_length _ _ _ (by omega)
    obtain ⟨⟨calls,value⟩,within⟩ := ih (by dsimp only; rw [length]; omega) (by dsimp only; rw [length,sized])
    dsimp only at value
    rw [Memory.overwrite_overwrite _ _ _ (by omega),next,rest] at value
    refine ⟨⟨calls,?_⟩,?_⟩
    · simp only [bind_value,pure_value,value]
      rw [← next,List.length_append]
    · simp only [always_bind,always_emit,always_pure,and_true]
      refine ⟨?_,within⟩
      change offset+bytes.length ≤ work.blimit
      omega

theorem checkWavefileSpace_room {work : Work} (sound : work.Sound) (len : Nat) :
    (checkWavefileSpace system work len).Sound ∧ len ≤ (checkWavefileSpace system work len).blimit ∧
      (checkWavefileSpace system work len).reader = work.reader := by
  have sized := sound.sized
  have fits := sound.fits
  by_cases more : len > work.blimit
  · rw [checkWavefileSpace,if_pos more]
    refine ⟨⟨?_,?_⟩,Nat.le_refl _,?_⟩
    · simp only [List.length_append,List.length_map,List.length_range]
      omega
    · exact fits.trans (Nat.le_of_lt more)
    · simp only [Work.reader,List.take_append_of_le_length (sized ▸ fits)]
  · rw [checkWavefileSpace,if_neg more]
    exact ⟨sound,Nat.le_of_not_lt more,rfl⟩

theorem testWavefileRead_refines {work : Work} (sound : work.Sound) (reqsize : Nat) :
    Refines Held.Within (fun work => work.Sound ∧ reqsize ≤ work.size) Work.reader
      (testWavefileRead system (checkWavefileSpace system work reqsize) reqsize)
      (Audio.testWavefileRead work.reader reqsize) := by
  obtain ⟨⟨sized,fits⟩,room,same⟩ := @checkWavefileSpace_room system work sound reqsize
  rw [← same]
  obtain ⟨work,checked⟩ : ∃ next, next = checkWavefileSpace system work reqsize := ⟨_,rfl⟩
  rw [← checked] at sized fits room ⊢
  have length : work.reader.buffer.length = work.size := List.length_take_of_le (by omega)
  by_cases enough : work.size ≥ reqsize
  · rw [testWavefileRead,if_pos enough,Audio.testWavefileRead,if_pos (length.symm ▸ enough)]
    exact .pure ⟨⟨sized,fits⟩,enough⟩
  · obtain ⟨⟨calls,value⟩,within⟩ := @safeRead_stores system work work.size (reqsize-work.size) (by omega) sized
    rw [testWavefileRead,if_neg enough,Audio.testWavefileRead,if_neg (length.symm ▸ enough),length]
    have reads : Audio.safeRead work.reader.file (reqsize-work.size) =
        (work.fd.unread.take (reqsize-work.size),work.fd.unread.drop (reqsize-work.size)) := rfl
    refine .after within ?_
    simp only [value,reads]
    by_cases all : (work.fd.unread.take (reqsize-work.size)).length = reqsize-work.size
    · have stored := Memory.overwrite_take work.buffer work.size (work.fd.unread.take (reqsize-work.size)) (by omega)
      have stays := Memory.overwrite_length work.buffer work.size (work.fd.unread.take (reqsize-work.size)) (by omega)
      rw [all,Nat.add_sub_cancel' (by omega)] at stored
      simp only [all,ne_eq,not_true_eq_false,if_false]
      rw [Work.reader,← stored]
      exact .pure ⟨⟨by dsimp only; omega,room⟩,Nat.le_refl _⟩
    · simp only [all,ne_eq,not_false_eq_true,if_true]
      exact .exit

theorem move_moves {work : Work} (sound : work.Sound) (len : Nat) :
    (work.move len).value.Sound ∧ (work.move len).value.reader = work.reader.move len ∧
      Always Held.Within (work.move len) := by
  obtain ⟨sized,fits⟩ := sound
  by_cases left : work.size > len
  · obtain ⟨block,kept⟩ : ∃ block, block = fetch work.buffer len (work.size-len) := ⟨_,rfl⟩
    have length : block.length = work.size-len := by rw [kept,Memory.fetch_length]
    have stays := Memory.overwrite_length work.buffer 0 block (by omega)
    have start := Memory.overwrite_take work.buffer 0 block (Nat.zero_le _)
    rw [Work.move,if_pos left,← kept]
    simp only [bind_value,pure_value,always_bind,always_emit,always_pure,and_true]
    refine ⟨⟨stays.trans sized,(Nat.sub_le _ _).trans fits⟩,?_,(Nat.sub_le _ _).trans fits⟩
    rw [Nat.zero_add,length,List.take_zero,List.nil_append] at start
    simp only [Work.reader,Reader.move,start]
    rw [kept,Memory.fetch_eq_take_drop _ _ _ (by omega),List.drop_take]
  · rw [Work.move,if_neg left]
    refine ⟨⟨sized,(Nat.sub_le _ _).trans fits⟩,?_,always_pure _ _⟩
    have gone : work.size-len = 0 := Nat.sub_eq_zero_of_le (Nat.le_of_not_lt left)
    simp only [pure_value,Work.reader,Reader.move,gone,List.take_zero]
    rw [List.drop_of_length_le ((List.length_take_le _ _).trans (Nat.le_of_not_lt left))]

theorem seekChunk_refines {work : Work} (sound : work.Sound) (wanted : List UInt8) (bigEndian : Bool) (turns : Nat) :
    Refines Held.Within (fun found => found.2.Sound) (fun found => (found.1,found.2.reader))
      (seekChunk system wanted bigEndian turns work) (Audio.seekChunk wanted bigEndian turns work.reader) := by
  induction turns generalizing work with
  | zero => exact .exit
  | succ turns ih =>
    rw [seekChunk,Audio.seekChunk]
    refine .bind (testWavefileRead_refines sound 8) ?_
    rintro header ⟨sound,held⟩
    obtain ⟨still,moved,within⟩ := move_moves sound 8
    have type : fetch header.reader.buffer 0 4 = fetch header.buffer 0 4 := Memory.fetch_take _ (by omega)
    have length : fetch header.reader.buffer 4 4 = fetch header.buffer 4 4 := Memory.fetch_take _ (by omega)
    simp only [type,length]
    refine .after within ?_
    rw [← moved]
    split
    · exact .pure still
    · refine .bind (testWavefileRead_refines still _) ?_
      rintro body ⟨sound,-⟩
      obtain ⟨still,moved,within⟩ := move_moves sound (pad (toCpu (fetch header.buffer 4 4) bigEndian))
      refine .after within ?_
      rw [← moved]
      exact ih still

theorem workOn_holds (buffer : List UInt8) {size : Nat} (fd : Fd) (inside : size ≤ buffer.length) :
    (workOn system buffer size fd).value.Sound ∧
      (workOn system buffer size fd).value.reader = ⟨(buffer.take size).drop 12,fd.unread⟩ ∧
      Always Held.Within (workOn system buffer size fd) := by
  have start : Work.Sound ⟨[],0,0,fd⟩ := ⟨rfl,Nat.le_refl 0⟩
  by_cases more : size > 12
  · obtain ⟨⟨sized,fits⟩,room,-⟩ := @checkWavefileSpace_room system _ start (size-12)
    obtain ⟨block,copied⟩ : ∃ block, block = fetch buffer 12 (size-12) := ⟨_,rfl⟩
    have length : block.length = size-12 := by rw [copied,Memory.fetch_length]
    have descriptor : (checkWavefileSpace system ⟨[],0,0,fd⟩ (size-12)).fd = fd := by
      rw [checkWavefileSpace]
      split <;> rfl
    obtain ⟨work,checked⟩ : ∃ next, next = checkWavefileSpace system ⟨[],0,0,fd⟩ (size-12) := ⟨_,rfl⟩
    rw [← checked] at sized fits room descriptor
    have stays := Memory.overwrite_length work.buffer 0 block (by omega)
    have front := Memory.overwrite_take work.buffer 0 block (Nat.zero_le _)
    rw [Nat.zero_add,length,List.take_zero,List.nil_append] at front
    rw [workOn,if_pos more,← checked,← copied]
    simp only [bind_value,pure_value,always_bind,always_emit,always_pure,and_true]
    refine ⟨⟨stays.trans sized,room⟩,?_,room⟩
    simp only [Work.reader,front,descriptor]
    rw [copied,Memory.fetch_eq_take_drop _ _ _ (by omega),List.drop_take]
  · rw [workOn,if_neg more]
    refine ⟨start,?_,always_pure _ _⟩
    rw [pure_value,List.drop_of_length_le ((List.length_take_le _ _).trans (Nat.le_of_not_lt more))]
    rfl

theorem testFmt_held (big : Bool) {work : Work} {len : Nat} (sized : 16 ≤ len) (held : len ≤ work.size) :
    testFmt big len work.reader.buffer = testFmt big len work.buffer := by
  rw [← testFmt_take big sized,← testFmt_take big sized work.buffer,Work.reader,List.take_take,Nat.min_eq_left held]

theorem copied_back {work : Work} (sound : work.Sound) (buffer : List UInt8) :
    (overwrite buffer 0 (fetch work.buffer 0 work.size)).take work.size = work.reader.buffer ∧
      work.size ≤ (overwrite buffer 0 (fetch work.buffer 0 work.size)).length := by
  obtain ⟨sized,fits⟩ := sound
  have held : fetch work.buffer 0 work.size = work.reader.buffer :=
    Memory.fetch_eq_take_drop _ _ _ (by omega)
  have size : work.reader.buffer.length = work.size := List.length_take_of_le (by omega)
  rw [held,Memory.overwrite_start]
  refine ⟨List.take_left' size,?_⟩
  rw [List.length_append,size]
  exact Nat.le_add_right _ _

def Returned.wavefile (returned : Returned) : Wavefile :=
  ⟨returned.buffer.take returned.result,returned.fd.unread,returned.hwparams,returned.pbrecCount⟩

/-- With its memory, test_wavefile does what it does without. -/
theorem testWavefile_refines (buffer : List UInt8) {size : Nat} (fd : Fd) (pbrecCount : Nat) (inside : size ≤ buffer.length) :
    Refines Held.Within (fun returned => ∀ found ∈ returned, found.result ≤ found.buffer.length)
      (Option.map Returned.wavefile) (testWavefile system buffer size fd pbrecCount)
      (Audio.testWavefile (buffer.take size) fd.unread pbrecCount) := by
  have length : (buffer.take size).length = size := List.length_take_of_le inside
  have nothing : ∀ found ∈ (none : Option Returned), found.result ≤ found.buffer.length := by simp
  rw [testWavefile,Audio.testWavefile,length]
  by_cases short : size < 12
  · rw [if_pos short,if_pos short]
    exact .pure nothing
  have magic : fetch (buffer.take size) 0 4 = fetch buffer 0 4 := Memory.fetch_take _ (by omega)
  have wave : fetch (buffer.take size) 8 4 = fetch buffer 8 4 := Memory.fetch_take _ (by omega)
  simp only [if_neg short,magic,wave]
  split
  · exact .pure nothing
  split
  · exact .pure nothing
  obtain ⟨sound,reader,within⟩ := @workOn_holds system buffer size fd inside
  refine .after within ?_
  rw [← reader]
  refine .bind (seekChunk_refines sound _ _ _) ?_
  rintro ⟨len,work⟩ sound
  dsimp only
  by_cases few : pad len < 16
  · rw [if_pos few,if_pos few]
    exact .exit
  rw [if_neg few,if_neg few]
  refine .bind (testWavefileRead_refines sound _) ?_
  rintro work ⟨sound,held⟩
  rw [testFmt_held _ (Nat.le_of_not_lt few) held]
  rcases testFmt _ (pad len) work.buffer with _ | hwparams
  · exact .exit
  obtain ⟨still,moved,within⟩ := move_moves sound (pad len)
  refine .after within ?_
  dsimp only [Option.bind_eq_bind,Option.bind_some]
  rw [← moved]
  refine .bind (seekChunk_refines still _ _ _) ?_
  rintro ⟨count,work⟩ sound
  obtain ⟨copied,written⟩ := copied_back sound buffer
  dsimp only at copied written ⊢
  rw [← copied]
  exact .pure fun _ same => Option.some.inj same ▸ written

theorem testWavefile_returns {head : List UInt8} {fd : Fd} {pbrecCount : Nat} {wavefile : Wavefile}
    (found : Audio.testWavefile head fd.unread pbrecCount = some (some wavefile)) (room : List UInt8) :
    ∃ returned, (testWavefile system (head ++ room) head.length fd pbrecCount).run.value = some (some returned) ∧
      returned.wavefile = wavefile ∧ returned.result = wavefile.leftover.length := by
  obtain ⟨-,keeps,value⟩ := @testWavefile_refines system (head ++ room) _ fd pbrecCount
    (by simp : head.length ≤ (head ++ room).length)
  rw [List.take_left,found] at value
  obtain ⟨result,given,erased⟩ := Option.map_eq_some_iff.mp value
  obtain ⟨returned,rfl,rfl⟩ := Option.map_eq_some_iff.mp erased
  exact ⟨returned,given,rfl,(List.length_take_of_le (keeps _ given returned rfl)).symm⟩

end Steps

/-- A file that test_wavefile can play, cut into what the caller's buffer holds, with room
behind it, and what is still to be read. -/
structure Prefetched where
  opening : Riff.Opening
  sound : List UInt8
  head : List UInt8
  unread : List UInt8
  room : List UInt8
  cut : opening.bytes sound = head ++ unread
  header : 12 ≤ head.length
  supported : Supported opening.big (opening.format.body ++ opening.format.pad)

/-- Wherever the file is cut and in whatever pieces it is read, the first bytes of the
buffer and those still to be read are the sound. -/
theorem testWavefile_sound (system : System) (prefetched : Prefetched) (calls pbrecCount : Nat) :
    ∃ returned : Returned,
      (testWavefile system (prefetched.head ++ prefetched.room) prefetched.head.length ⟨prefetched.unread,calls⟩
        pbrecCount).run.value = some (some returned) ∧
      returned.buffer.take returned.result ++ returned.fd.unread = prefetched.sound ∧
      returned.result ≤ prefetched.head.length ∧
      Always Held.Within (testWavefile system (prefetched.head ++ prefetched.room) prefetched.head.length
        ⟨prefetched.unread,calls⟩ pbrecCount).run := by
  have playable := (testFmt_isSome_iff _ prefetched.supported.sized).mpr prefetched.supported
  obtain ⟨hwparams,params⟩ := Option.isSome_iff_exists.mp playable
  have supported : ∀ more, testFmt prefetched.opening.big
      (prefetched.opening.format.body ++ prefetched.opening.format.pad).length
      (prefetched.opening.format.body ++ prefetched.opening.format.pad ++ more) = some hwparams := by
    intro more
    rw [← testFmt_take _ prefetched.supported.sized,List.take_left]
    exact params
  obtain ⟨leftover,unread,count,found,sound,few⟩ :=
    testWavefile_opening prefetched.cut prefetched.header ⟨prefetched.supported.sized,supported⟩ pbrecCount
  have within := (@testWavefile_refines system (prefetched.head ++ prefetched.room) prefetched.head.length
    ⟨prefetched.unread,calls⟩ pbrecCount (by simp)).always
  obtain ⟨returned,given,same,result⟩ :=
    @testWavefile_returns system prefetched.head ⟨prefetched.unread,calls⟩ pbrecCount _ found prefetched.room
  have left : returned.buffer.take returned.result = leftover := congrArg Wavefile.leftover same
  have rest : returned.fd.unread = unread := congrArg Wavefile.file same
  refine ⟨returned,given,?_,?_,within⟩
  · rw [left,rest,sound]
  · rw [result]
    exact few.trans (Nat.sub_le _ _)

/-- Sound of 16 bits in one channel, 8000 frames a second. -/
def clickFormat : List UInt8 := [1,0,1,0,0x40,0x1F,0,0,0x80,0x3E,0,0,2,0,16,0]

theorem clickFormat_named : Riff.fmtId.length = 4 := rfl

theorem clickFormat_padded : ([] : List UInt8).length = clickFormat.length%2 := rfl

theorem clickFormat_short (chunk : Riff.Chunk)
    (member : chunk ∈ ([] : List Riff.Chunk) ++ [⟨Riff.fmtId,clickFormat,[],clickFormat_named,clickFormat_padded⟩]) :
    (chunk.body ++ chunk.pad).length < 2^32 := by
  rw [List.mem_singleton.mp member]
  decide

theorem click_dataShort : 4+4%2 < 2^32 := by
  decide

/-- A file with four bytes of that sound. -/
def clickOpening : Riff.Opening where
  big := false
  riffLength := 40
  before := []
  format := ⟨Riff.fmtId,clickFormat,[],clickFormat_named,clickFormat_padded⟩
  between := []
  dataLength := 4
  foreign := fun _ member => absurd member List.not_mem_nil
  formatNamed := rfl
  other := fun _ member => absurd member List.not_mem_nil
  short := clickFormat_short
  dataShort := click_dataShort

theorem click_header : 12 ≤ ((clickOpening.bytes [1,2,3,4]).take 26).length := by
  decide

theorem click_supported : Supported clickOpening.big (clickOpening.format.body ++ clickOpening.format.pad) :=
  ⟨by decide,by decide,by decide,by decide⟩

def click : Prefetched where
  opening := clickOpening
  sound := [1,2,3,4]
  head := (clickOpening.bytes [1,2,3,4]).take 26
  unread := (clickOpening.bytes [1,2,3,4]).drop 26
  room := [0,0]
  cut := (List.take_append_drop _ _).symm
  header := click_header
  supported := click_supported

def bytewise : System := ⟨fun _ => 1,fun _ => 0,fun _ => Nat.one_pos⟩

theorem testWavefile_sound_click : ∃ returned : Returned,
    (testWavefile bytewise (click.head ++ click.room) click.head.length ⟨click.unread,0⟩ 1000).run.value = some (some returned) ∧
      returned.buffer.take returned.result ++ returned.fd.unread = [1,2,3,4] ∧ returned.result ≤ click.head.length ∧
      Always Held.Within (testWavefile bytewise (click.head ++ click.room) click.head.length ⟨click.unread,0⟩ 1000).run :=
  testWavefile_sound bytewise click 0 1000

end Libsme.Audio.WorkBuffer
