import Libsme.Audio.Playback

/-! The lengths in playback_go: what it asks safe_read for, what the chunk buffer holds and
what is played, whatever the reads deliver. The variables are integers of unbounded size; a
value that the int of the source cannot hold is an event of its own, after which nothing is
known of the program. -/
namespace Libsme.Audio.ReadBounds

inductive Event where
  | request (l c : Int)
  | held (bytes : Int)
  | played (bytes : Nat)
  | overflow
deriving DecidableEq

/-- The data of a call. The bytes loaded lie in one object, and count is a long long. -/
structure Call where
  device : Device
  hwparams : Hwparams
  loaded : Nat
  count : Nat
  inObject : loaded < 2^63
  inLong : count < 2^63

def Call.chunk (call : Call) : Nat := chunkBytes call.device call.hwparams

def toInt (number : Int) : List Event := if -2^31 ≤ number ∧ number < 2^31 then [] else [.overflow]

/-- safe_read on results of read from number `calls` on; the calls made so far come with the
result. -/
def safeRead (reads : Nat → Int) (count : Nat) (result : Int) (calls : Nat) : Int × Nat :=
  if count = 0 then (result,calls)
  else
    let res := min (reads calls) count
    if res = 0 then (result,calls+1)
    else if res < 0 then (if result > 0 then result else res,calls+1)
    else safeRead reads (count-res.toNat) (result+res) (calls+1)
termination_by count
decreasing_by omega

/-- The bytes in the buffer when a loop ends, or none after prg_exit. -/
structure Refill where
  l : Option Int
  calls : Nat
  log : List Event

/-- The loop that fills the buffer, `left` bytes before the end of the input. -/
def refill (chunk : Nat) (left : Int) (reads : Nat → Int) (l : Int) (calls : Nat) : Refill :=
  let c := min left chunk-l
  if c = 0 then ⟨some l,calls,[]⟩
  else
    let request := Event.request l c
    let r := safeRead reads (c%2^64).toNat 0 calls
    if r.1 < 0 then ⟨none,r.2,[request]⟩
    else if r.1 = 0 then ⟨some l,r.2,[request]⟩
    else
      let events := request::toInt r.1 ++ toInt (l+r.1) ++ [.held (l+r.1)]
      if l+r.1 < chunk then
        let rest := refill chunk left reads (l+r.1) r.2
        ⟨rest.l,rest.calls,events ++ rest.log⟩
      else ⟨some (l+r.1),r.2,events⟩
termination_by (chunk-l).toNat
decreasing_by
  change (chunk-(l+r.1)).toNat < (chunk-l).toNat
  have some_read : 0 < r.1 := by omega
  omega

/-- The loop that reads; of the frames that pcm_write gets, l*8/bits_per_frame come from the
input. -/
def playRest (call : Call) (reads : Nat → Int) (written l : Int) (calls : Nat) : List Event :=
  if written < call.count then
    let filled := refill call.chunk (call.count-written) reads l calls
    match filled.l with
    | none => filled.log
    | some bytes =>
      let frames := bytes.toNat*8/call.hwparams.bitsPerFrame
      let r := (pcmWrite call.device call.hwparams [] frames 0).result
      let events := filled.log ++ toInt (bytes*8) ++ [.played (frames*call.hwparams.bitsPerFrame/8)]
      -- ALSA's periods are below 2^32 frames: an r that an int cannot hold is negative, not l
      if r ≠ frames then events
      else events ++ playRest call reads (written+(r*call.hwparams.bitsPerFrame/8 : Nat)) 0 filled.calls
  else []
termination_by (call.count-written).toNat
decreasing_by
  have all : r = max frames call.device.chunkSize := pcmWrite_result _ _ _ _ _
  have some_frame : 0 < r := by
    have sized := call.device.sized
    omega
  have some_bytes := Nat.mul_pos some_frame (bitsPerFrame_eq call.hwparams).left
  change (call.count-(written+(r*call.hwparams.bitsPerFrame/8 : Nat))).toNat < (call.count-written).toNat
  rw [mul_bitsPerFrame]
  omega

/-- The loop over the bytes loaded before, and `l = loaded`: the bytes that memmove leaves at
the start of the buffer, also where no byte of the limit is left for the loop that reads. -/
def playLoaded (call : Call) (reads : Nat → Int) (loaded written : Nat) : List Event :=
  if loaded > call.chunk ∧ written < call.count then
    .played call.chunk::playLoaded call reads (loaded-call.chunk) (written+call.chunk)
  else toInt loaded ++ .held loaded::playRest call reads written loaded 0
termination_by loaded
decreasing_by
  have positive := chunkBytes_pos call.device call.hwparams
  unfold Call.chunk at *
  omega

def playbackGo (call : Call) (reads : Nat → Int) : List Event := playLoaded call reads call.loaded 0

def Event.bytes : Event → Nat
  | .played bytes => bytes
  | _ => 0

structure Bounded (call : Call) (log : List Event) : Prop where
  requests : ∀ l c : Int, .request l c ∈ log → 1 ≤ c ∧ c ≤ call.chunk-l
  held : ∀ bytes : Int, .held bytes ∈ log → bytes ≤ call.chunk
  played : (log.map Event.bytes).sum ≤ call.count
  defined : .overflow ∉ log

/-- The bytes loaded do not go beyond the limit, or whole chunks of them end at it and what is
left fits one more; and what is read for one chunk stays below 2^28 bytes, eight times of which
an int cannot hold, as what is left stays below 2^31. -/
structure InLimits (call : Call) : Prop where
  loaded : call.loaded ≤ call.count ∨ call.chunk ∣ call.count ∧ call.loaded ≤ call.count+call.chunk
  small : call.chunk < 2^28 ∨
    call.count-(call.loaded-1)/call.chunk*call.chunk < 2^28 ∧ call.loaded-call.count < 2^31

def Fine (chunk : Nat) : Event → Prop
  | .request l c => 1 ≤ c ∧ c ≤ chunk-l
  | .held bytes => bytes ≤ chunk
  | .played _ => True
  | .overflow => False

theorem bounded_iff (call : Call) (log : List Event) :
    Bounded call log ↔ (∀ event ∈ log, Fine call.chunk event) ∧ (log.map Event.bytes).sum ≤ call.count := by
  constructor
  · rintro ⟨requests,held,played,defined⟩
    refine ⟨?_,played⟩
    intro event member
    cases event with
    | request l c => exact requests l c member
    | held bytes => exact held bytes member
    | played bytes => trivial
    | overflow => exact defined member
  · rintro ⟨fine,played⟩
    exact ⟨fun l c member => fine _ member,fun bytes member => fine _ member,played,fun member => fine _ member⟩

theorem toInt_small {number : Int} (least : 0 ≤ number) (small : number < 2^31) : toInt number = [] :=
  if_pos ⟨by omega,small⟩

theorem overflow_mem_toInt {number : Int} (large : 2^31 ≤ number) : Event.overflow ∈ toInt number := by
  rw [toInt,if_neg (by omega)]
  exact List.mem_singleton_self _

theorem safeRead_le (reads : Nat → Int) (count : Nat) (result : Int) (calls : Nat) (least : 0 ≤ result) :
    (safeRead reads count result calls).1 ≤ result+count := by
  fun_induction safeRead reads count result calls with
  | case1 => simp
  | case2 => simp only; omega
  | case3 => simp only; split <;> omega
  | case4 count result calls more res some_read positive ih =>
    have rest := ih (by omega)
    omega

section Refill
variable {chunk : Nat} {left : Int} {reads : Nat → Int} {l : Int} {calls : Nat}

theorem read_fine {c r : Int} (least : 0 ≤ l) (some_read : 0 < r) (most : r ≤ c) (inside : l+c ≤ chunk)
    (small : l+c < 2^28) : ∀ event ∈ Event.request l c::toInt r ++ toInt (l+r) ++ [.held (l+r)],
      Fine chunk event ∧ event.bytes = 0 := by
  rw [toInt_small (by omega) (by omega),toInt_small (by omega) (by omega)]
  intro event member
  simp only [List.append_nil,List.cons_append,List.nil_append,List.mem_cons,List.not_mem_nil,or_false] at member
  rcases member with rfl | rfl
  · exact ⟨⟨by omega,by omega⟩,rfl⟩
  · exact ⟨by simp only [Fine]; omega,rfl⟩

/-- In the limits a refill asks for what is missing, and holds no more. -/
theorem refill_fine (least : 0 ≤ l) (inside : l ≤ min left chunk)
    (small : min left chunk < 2^28) :
    (∀ event ∈ (refill chunk left reads l calls).log, Fine chunk event ∧ event.bytes = 0) ∧
      ∀ bytes, (refill chunk left reads l calls).l = some bytes → 0 ≤ bytes ∧ bytes ≤ min left chunk := by
  have read : ∀ l : Int, 0 ≤ l → l ≤ min left chunk → ∀ calls,
      (safeRead reads ((min left chunk-l)%2^64).toNat 0 calls).1 ≤ min left chunk-l := by
    intro l least inside calls
    have bound := safeRead_le reads ((min left chunk-l)%2^64).toNat 0 calls (Int.le_refl 0)
    omega
  fun_induction refill chunk left reads l calls with
  | case1 l calls c full =>
    exact ⟨fun event member => absurd member List.not_mem_nil,fun bytes same => Option.some.inj same ▸ ⟨least,inside⟩⟩
  | case2 l calls c room request r fails =>
    refine ⟨?_,fun bytes same => absurd same (Option.some_ne_none bytes).symm⟩
    intro event member
    rw [List.mem_singleton.mp member]
    exact ⟨⟨by omega,by omega⟩,rfl⟩
  | case3 l calls c room request r ok ended =>
    refine ⟨?_,fun bytes same => Option.some.inj same ▸ ⟨least,inside⟩⟩
    intro event member
    rw [List.mem_singleton.mp member]
    exact ⟨⟨by omega,by omega⟩,rfl⟩
  | case4 l calls c room request r ok some_read events short rest ih =>
    have most : r.1 ≤ min left chunk-l := read l least inside calls
    obtain ⟨fine,result⟩ := ih (by omega) (by omega)
    refine ⟨?_,result⟩
    intro event member
    rcases List.mem_append.mp member with here | later
    · exact read_fine least (by omega) most (by omega) (by omega) event here
    · exact fine event later
  | case5 l calls c room request r ok some_read events full =>
    have most : r.1 ≤ min left chunk-l := read l least inside calls
    refine ⟨?_,fun bytes same => Option.some.inj same ▸ ⟨by omega,by omega⟩⟩
    exact read_fine least (by omega) most (by omega) (by omega)

/-- Bytes beyond the limit make a request of a negative length. -/
theorem refill_negative (beyond : min left chunk < l) :
    Event.request l (min left chunk-l) ∈ (refill chunk left reads l calls).log := by
  rw [refill]
  simp only [show ¬min left (chunk : Int)-l = 0 by omega,if_false]
  split
  · exact List.mem_singleton_self _
  · split
    · exact List.mem_singleton_self _
    · split <;> simp

/-- A file that gives all it is asked for fills the chunk. -/
theorem refill_full (least : 0 ≤ l) (inside : l ≤ min left chunk) (long : left < 2^63) :
    (refill chunk left (fun _ => 2^64) l calls).l = some (min left chunk) := by
  have whole : ∀ (count : Nat) calls, 0 < count → count < 2^64 →
      (safeRead (fun _ => 2^64) count 0 calls).1 = count := by
    intro count calls some_bytes bound
    have most : min ((2 : Int)^64) count = count := by omega
    rw [safeRead,if_neg (by omega)]
    simp only [most]
    rw [if_neg (by omega),if_neg (by omega),Int.toNat_natCast,Nat.sub_self,safeRead,if_pos rfl,Int.zero_add]
  have stops : ∀ calls, (refill chunk left (fun _ => 2^64) (min left chunk) calls).l = some (min left chunk) := by
    intro calls
    rw [refill,if_pos (Int.sub_self _)]
  rcases Int.lt_or_eq_of_le inside with missing | full
  · obtain ⟨count,same⟩ := Int.eq_ofNat_of_zero_le (by omega : 0 ≤ min left (chunk : Int)-l)
    have size : (((count : Int))%2^64).toNat = count := by omega
    have read := whole count calls (by omega) (by omega)
    have total : l+count = min left (chunk : Int) := by omega
    rw [refill]
    simp only [same,size,read,total,stops]
    rw [if_neg (by omega),if_neg (by omega),if_neg (by omega)]
    split <;> rfl
  · rw [full]
    exact stops calls

end Refill

section Runs
variable {call : Call}

theorem chunk_pos : 0 < call.chunk := chunkBytes_pos _ _

theorem played_chunk {bytes : Int} (least : 0 ≤ bytes) (inside : bytes ≤ call.chunk) :
    let frames := bytes.toNat*8/call.hwparams.bitsPerFrame
    let r := (pcmWrite call.device call.hwparams [] frames 0).result
    (frames*call.hwparams.bitsPerFrame/8 : Nat) ≤ bytes ∧
      (r = frames → bytes = call.chunk ∧ r*call.hwparams.bitsPerFrame/8 = call.chunk) := by
  have positive := (bitsPerFrame_eq call.hwparams).left
  have chunk : call.chunk = call.device.chunkSize*call.hwparams.frameBytes := chunkBytes_eq _ _
  simp only [mul_bitsPerFrame,div_bitsPerFrame,pcmWrite_result]
  have part := Nat.div_mul_le_self bytes.toNat call.hwparams.frameBytes
  refine ⟨by omega,?_⟩
  intro full
  have enough : call.device.chunkSize ≤ bytes.toNat/call.hwparams.frameBytes := by omega
  have whole := (Nat.le_div_iff_mul_le positive).mp enough
  rw [← chunk] at whole
  have same : bytes.toNat = call.chunk := by omega
  refine ⟨by omega,?_⟩
  rw [full,same,chunk,Nat.mul_div_cancel _ positive]

theorem sum_bytes_eq_zero {log : List Event} (silent : ∀ event ∈ log, event.bytes = 0) :
    (log.map Event.bytes).sum = 0 := by
  induction log with
  | nil => rfl
  | cons event log ih =>
    rw [List.map_cons,List.sum_cons,silent event List.mem_cons_self,
      ih fun other member => silent other (List.mem_cons_of_mem _ member)]

theorem turn_fine {left : Int} {reads : Nat → Int} {l : Int} {calls : Nat} {bytes : Int} (least : 0 ≤ l)
    (inside : l ≤ min left call.chunk) (small : min left call.chunk < 2^28)
    (given : (refill call.chunk left reads l calls).l = some bytes) :
    let frames := bytes.toNat*8/call.hwparams.bitsPerFrame
    let events := (refill call.chunk left reads l calls).log ++ toInt (bytes*8) ++
      [Event.played (frames*call.hwparams.bitsPerFrame/8)]
    (0 ≤ bytes ∧ bytes ≤ min left call.chunk) ∧ (∀ event ∈ events, Fine call.chunk event) ∧
      ((events.map Event.bytes).sum : Int) ≤ bytes := by
  obtain ⟨fine,result⟩ := @refill_fine call.chunk left reads l calls least inside small
  obtain ⟨some_bytes,most⟩ := result bytes given
  rw [toInt_small (by omega) (by omega),List.append_nil]
  refine ⟨⟨some_bytes,most⟩,?_,?_⟩
  · intro event member
    rcases List.mem_append.mp member with early | last
    · exact (fine event early).1
    · rw [List.mem_singleton.mp last]
      trivial
  · rw [List.map_append,List.sum_append,sum_bytes_eq_zero fun event member => (fine event member).2,Nat.zero_add]
    exact (@played_chunk call bytes some_bytes (by omega)).1

theorem playRest_fine {reads : Nat → Int} {written l : Int} {calls : Nat} (least : 0 ≤ l)
    (inside : written < call.count → l ≤ min (call.count-written) call.chunk)
    (small : min (call.count-written) (call.chunk : Int) < 2^28) (before : written ≤ call.count) :
    (∀ event ∈ playRest call reads written l calls, Fine call.chunk event) ∧
      (((playRest call reads written l calls).map Event.bytes).sum : Int) ≤ call.count-written := by
  fun_induction playRest call reads written l calls with
  | case1 written l calls more filled ended =>
    obtain ⟨fine,_⟩ := @refill_fine call.chunk (call.count-written) reads l calls least (inside more) small
    refine ⟨fun event member => (fine event member).1,?_⟩
    rw [sum_bytes_eq_zero fun event member => (fine event member).2]
    omega
  | case2 written l calls more filled bytes given frames r events stops =>
    obtain ⟨⟨some_bytes,most⟩,all,sum⟩ : _ ∧ (∀ event ∈ events, Fine call.chunk event) ∧
        ((events.map Event.bytes).sum : Int) ≤ bytes := turn_fine least (inside more) small given
    refine ⟨all,?_⟩
    omega
  | case3 written l calls more filled bytes given frames r events full ih =>
    obtain ⟨⟨some_bytes,most⟩,all,sum⟩ : _ ∧ (∀ event ∈ events, Fine call.chunk event) ∧
        ((events.map Event.bytes).sum : Int) ≤ bytes := turn_fine least (inside more) small given
    obtain ⟨same,next⟩ : bytes = call.chunk ∧ r*call.hwparams.bitsPerFrame/8 = call.chunk :=
      (@played_chunk call bytes some_bytes (by omega)).2 (not_not.mp full)
    rw [next] at ih
    have positive := @chunk_pos call
    obtain ⟨rest,total⟩ := ih (Int.le_refl 0) (fun _ => by omega) (by omega) (by omega)
    rw [next]
    refine ⟨?_,?_⟩
    · intro event member
      rcases List.mem_append.mp member with here | later
      · exact all event here
      · exact rest event later
    · rw [List.map_append,List.sum_append]
      omega
  | case4 written l calls ended =>
    exact ⟨fun event member => absurd member List.not_mem_nil,by simpa using before⟩

/-- What is left of the condition when `written` bytes have been played. -/
structure Remains (call : Call) (loaded written : Nat) : Prop where
  whole : call.chunk ∣ written
  before : written ≤ call.count
  inside : loaded+written ≤ call.count ∨ call.chunk ∣ call.count ∧ loaded+written ≤ call.count+call.chunk
  small : call.chunk < 2^28 ∨
    call.count-(written+(loaded-1)/call.chunk*call.chunk) < 2^28 ∧ loaded+written-call.count < 2^31

theorem Remains.start (limits : InLimits call) : Remains call call.loaded 0 :=
  ⟨Nat.dvd_zero _,Nat.zero_le _,limits.loaded,by rw [Nat.zero_add]; exact limits.small⟩

theorem div_chunk {loaded : Nat} (more : call.chunk < loaded) (written : Nat) :
    written+call.chunk+(loaded-call.chunk-1)/call.chunk*call.chunk = written+(loaded-1)/call.chunk*call.chunk := by
  have split : loaded-1 = loaded-call.chunk-1+call.chunk := by omega
  rw [split,Nat.add_div_right _ chunk_pos,Nat.succ_mul]
  omega

theorem chunk_room {written count : Nat} (whole : call.chunk ∣ written) (ends : call.chunk ∣ count)
    (more : written < count) : written+call.chunk ≤ count := by
  have rest := Nat.le_of_dvd (Nat.sub_pos_of_lt more) (Nat.dvd_sub ends whole)
  omega

theorem playLoaded_fine {reads : Nat → Int} {loaded written : Nat} (remains : Remains call loaded written) :
    (∀ event ∈ playLoaded call reads loaded written, Fine call.chunk event) ∧
      ((playLoaded call reads loaded written).map Event.bytes).sum ≤ call.count-written := by
  fun_induction playLoaded call reads loaded written with
  | case1 loaded written more ih =>
    obtain ⟨whole,before,inside,small⟩ := remains
    have room : written+call.chunk ≤ call.count := by
      rcases inside with enough | ⟨ends,_⟩
      · omega
      · exact chunk_room whole ends more.2
    have same : loaded-call.chunk+(written+call.chunk) = loaded+written := by omega
    obtain ⟨fine,sum⟩ := ih ⟨(Nat.dvd_add_right whole).mpr (Nat.dvd_refl _),room,by rw [same]; exact inside,
      by rw [div_chunk more.1,same]; exact small⟩
    refine ⟨List.forall_mem_cons.mpr ⟨trivial,fine⟩,?_⟩
    rw [List.map_cons,List.sum_cons,Event.bytes]
    omega
  | case2 loaded written stays =>
    obtain ⟨whole,before,inside,small⟩ := remains
    have fits : loaded ≤ call.chunk := by omega
    have positive := @chunk_pos call
    have room (more : written < call.count) : loaded+written ≤ call.count := by
      rcases inside with enough | ⟨ends,_⟩
      · exact enough
      · have := chunk_room whole ends more
        omega
    have first : (loaded-1)/call.chunk = 0 := Nat.div_eq_of_lt (by omega)
    rw [first,Nat.zero_mul,Nat.add_zero] at small
    obtain ⟨fine,sum⟩ := @playRest_fine call reads written loaded 0 (by omega) (fun _ => by omega) (by omega) (by omega)
    rw [toInt_small (by omega) (by omega),List.nil_append]
    refine ⟨List.forall_mem_cons.mpr ⟨by simp only [Fine]; omega,fine⟩,?_⟩
    have silent : (Event.held loaded).bytes = 0 := rfl
    rw [List.map_cons,List.sum_cons,silent,Nat.zero_add]
    omega

theorem refill_subset {reads : Nat → Int} {written l : Int} {calls : Nat} (more : written < call.count) :
    (refill call.chunk (call.count-written) reads l calls).log ⊆ playRest call reads written l calls := by
  intro event member
  rw [playRest,if_pos more]
  simp only
  split
  · exact member
  · split
    · simp [member]
    · simp [member]

/-- More bytes loaded than the limit, which no whole chunk meets, are asked for again or
played. -/
theorem playLoaded_beyond {reads : Nat → Int} {loaded written : Nat} (whole : call.chunk ∣ written)
    (before : written ≤ call.count) (beyond : call.count < loaded+written) (partly : ¬call.chunk ∣ call.count) :
    call.count-written < ((playLoaded call reads loaded written).map Event.bytes).sum ∨
      ∃ l c : Int, .request l c ∈ playLoaded call reads loaded written ∧ c < 0 := by
  fun_induction playLoaded call reads loaded written with
  | case1 loaded written more ih =>
    rw [List.map_cons,List.sum_cons,Event.bytes]
    rcases Nat.lt_or_ge call.count (written+call.chunk) with last | room
    · left
      omega
    · rcases ih ((Nat.dvd_add_right whole).mpr (Nat.dvd_refl _)) room (by omega) with played | ⟨l,c,asked,negative⟩
      · left
        omega
      · exact Or.inr ⟨l,c,List.mem_cons_of_mem _ asked,negative⟩
  | case2 loaded written stays =>
    right
    have more : written < call.count :=
      Nat.lt_of_le_of_ne before fun same => partly (same ▸ whole)
    have missing : min (call.count-written : Int) call.chunk < loaded := by omega
    have asked := refill_subset (by omega) (@refill_negative call.chunk (call.count-written) reads loaded 0 missing)
    refine ⟨loaded,min (call.count-written : Int) call.chunk-loaded,?_,by omega⟩
    exact List.mem_append_right _ (List.mem_cons_of_mem _ asked)

/-- Where whole chunks of the bytes loaded end at the limit, those beyond it are moved. -/
theorem playLoaded_past {reads : Nat → Int} {loaded written : Nat} (whole : call.chunk ∣ written)
    (before : written ≤ call.count) (ends : call.chunk ∣ call.count) (beyond : call.count < loaded+written) :
    .held (loaded+written-call.count : Nat) ∈ playLoaded call reads loaded written ∧
      toInt (loaded+written-call.count : Nat) ⊆ playLoaded call reads loaded written := by
  fun_induction playLoaded call reads loaded written with
  | case1 loaded written more ih =>
    have room := chunk_room whole ends more.2
    have same : loaded-call.chunk+(written+call.chunk) = loaded+written := by omega
    obtain ⟨held,number⟩ := ih ((Nat.dvd_add_right whole).mpr (Nat.dvd_refl _)) room (by omega)
    rw [same] at held number
    exact ⟨List.mem_cons_of_mem _ held,List.subset_cons_of_subset _ number⟩
  | case2 loaded written stays =>
    have all : loaded+written-call.count = loaded := by
      rcases Nat.lt_or_ge written call.count with more | ended
      · have room := chunk_room whole ends more
        omega
      · omega
    rw [all]
    exact ⟨List.mem_append_right _ List.mem_cons_self,List.subset_append_left _ _⟩

/-- A chunk of 2^28 bytes or more that a file fills takes l*8 out of int. -/
theorem playLoaded_large {loaded written : Nat} (inside : loaded+written ≤ call.count)
    (large : 2^28 ≤ call.chunk ∧ 2^28 ≤ call.count-(written+(loaded-1)/call.chunk*call.chunk)) :
    .overflow ∈ playLoaded call (fun _ => 2^64) loaded written := by
  fun_induction playLoaded call (fun _ => 2^64) loaded written with
  | case1 loaded written more ih =>
    have later := ih (by omega) (by rw [div_chunk more.1]; exact large)
    exact List.mem_cons_of_mem _ later
  | case2 loaded written stays =>
    have bound := call.inLong
    have full := @refill_full call.chunk (call.count-written) loaded 0 (by omega) (by omega) (by omega)
    have first : (loaded-1)/call.chunk = 0 := Nat.div_eq_of_lt (by omega)
    rw [first,Nat.zero_mul,Nat.add_zero] at large
    have outside := @overflow_mem_toInt (min (call.count-written : Int) call.chunk*8) (by omega)
    have logged : Event.overflow ∈ playRest call (fun _ => 2^64) written loaded 0 := by
      rw [playRest,if_pos (by omega)]
      simp only [full]
      split
      · simp [outside]
      · simp [outside]
    exact List.mem_append_right _ (List.mem_cons_of_mem _ logged)

theorem loaded_of_bounded (bounded : ∀ reads, Bounded call (playbackGo call reads)) :
    call.loaded ≤ call.count ∨ call.chunk ∣ call.count ∧ call.loaded ≤ call.count+call.chunk := by
  have result := bounded fun _ => 0
  rcases Nat.lt_or_ge call.count call.loaded with beyond | inside
  · right
    by_cases ends : call.chunk ∣ call.count
    · have held := (@playLoaded_past call (fun _ => 0) call.loaded 0 (Nat.dvd_zero _) (Nat.zero_le _) ends beyond).1
      have most := result.held _ held
      exact ⟨ends,by omega⟩
    · rcases @playLoaded_beyond call (fun _ => 0) call.loaded 0 (Nat.dvd_zero _) (Nat.zero_le _) beyond ends with
        played | ⟨l,c,asked,negative⟩
      · have most := result.played
        change ((playLoaded call (fun _ => 0) call.loaded 0).map Event.bytes).sum ≤ call.count at most
        omega
      · have least := (result.requests l c asked).1
        omega
  · exact Or.inl inside

theorem small_of_bounded (bounded : ∀ reads, Bounded call (playbackGo call reads)) : call.chunk < 2^28 ∨
    call.count-(call.loaded-1)/call.chunk*call.chunk < 2^28 ∧ call.loaded-call.count < 2^31 := by
  by_contra large
  obtain ⟨chunk,rest⟩ := not_or.mp large
  rcases loaded_of_bounded bounded with inside | ⟨ends,most⟩
  · exact (bounded fun _ => 2^64).defined (playLoaded_large (by omega) (by rw [Nat.zero_add]; omega))
  · rcases Nat.lt_or_ge call.count call.loaded with beyond | inside
    · -- the first loop ends at the limit, so it is what lies beyond it that is too large
      have none : call.count-(call.loaded-1)/call.chunk*call.chunk = 0 := by
        obtain ⟨times,same⟩ := ends
        have turns : times ≤ (call.loaded-1)/call.chunk := by
          rw [Nat.le_div_iff_mul_le chunk_pos,Nat.mul_comm,← same]
          omega
        have all := Nat.mul_le_mul_left call.chunk turns
        rw [← same,Nat.mul_comm] at all
        omega
      have number := (@playLoaded_past call (fun _ => 0) call.loaded 0 (Nat.dvd_zero _) (Nat.zero_le _) ends beyond).2
      exact (bounded fun _ => 0).defined (number (overflow_mem_toInt (by omega)))
    · exact (bounded fun _ => 2^64).defined (playLoaded_large (by omega) (by rw [Nat.zero_add]; omega))

/-- playback_go stays in its bounds, whatever the reads deliver, for exactly these calls. -/
theorem playbackGo_bounded_iff (call : Call) :
    (∀ reads, Bounded call (playbackGo call reads)) ↔ InLimits call := by
  refine ⟨fun bounded => ⟨loaded_of_bounded bounded,small_of_bounded bounded⟩,?_⟩
  intro limits reads
  exact (bounded_iff call _).mpr (playLoaded_fine (Remains.start limits))

end Runs

def shortInput : Call := ⟨speaker,⟨.u8,1,8000,Nat.one_pos⟩,20,10,by decide,by decide⟩

theorem playbackGo_shortInput : ¬∀ call reads, Bounded call (playbackGo call reads) := by
  intro always
  rcases loaded_of_bounded (always shortInput) with inside | ⟨ends,_⟩
  · exact absurd inside (by decide)
  · exact absurd ends (by decide)

end Libsme.Audio.ReadBounds
