import Libsme.Library.Memory
import Libsme.Semantics.Fips180
import Libsme.Semantics.Rfc4648

/-! The SHA-1 of sha1.h and its agreement with FIPS 180-4 on every message whose bit
length fits in the context's two length words. `unsigned` is 32 bits wide. -/
namespace Libsme.Websocket
open Positional Semantics
open Semantics.Fips180 (Words)

structure SHA1Context where
  messageDigest : Words
  lengthLow : UInt32
  lengthHigh : UInt32
  messageBlock : List UInt8
  messageBlockIndex : Nat
  computed : Bool
  corrupted : Bool

def sha1CircularShift (bits word : UInt32) : UInt32 :=
  ((word <<< bits) &&& 0xFFFFFFFF) ||| (word >>> (32-bits))

def sha1Reset (context : SHA1Context) : SHA1Context :=
  {context with
    lengthLow := 0
    lengthHigh := 0
    messageBlockIndex := 0
    messageDigest := ⟨0x67452301,0xEFCDAB89,0x98BADCFE,0x10325476,0xC3D2E1F0⟩
    computed := false
    corrupted := false}

def blockWord (block : List UInt8) (t : Nat) : UInt32 :=
  (block.getD (t*4) 0).toUInt32 <<< 24 ||| (block.getD (t*4+1) 0).toUInt32 <<< 16 |||
    (block.getD (t*4+2) 0).toUInt32 <<< 8 ||| (block.getD (t*4+3) 0).toUInt32

def extendWords (w : List UInt32) (t : Nat) : List UInt32 :=
  w ++ [sha1CircularShift 1
    (w.getD (t-3) 0 ^^^ w.getD (t-8) 0 ^^^ w.getD (t-14) 0 ^^^ w.getD (t-16) 0)]

/-- The array `W`: 16 words of the block, then 64 computed ones. -/
def blockWords (block : List UInt8) : List UInt32 :=
  (List.range' 16 64).foldl extendWords ((List.range 16).map (blockWord block))

/-- One of the four loops of 20 rounds, which differ in their function and constant. -/
def rounds (f : UInt32 → UInt32 → UInt32 → UInt32) (k : UInt32) (w : List UInt32) (start : Nat)
    (working : Words) : Words :=
  (List.range' start 20).foldl (fun s t =>
    let temp := sha1CircularShift 5 s.a + f s.b s.c s.d + s.e + w.getD t 0 + k
    ⟨temp &&& 0xFFFFFFFF,s.a,sha1CircularShift 30 s.b,s.c,s.d⟩) working

def processDigest (digest : Words) (block : List UInt8) : Words :=
  let w := blockWords block
  let s := rounds (fun b c d => (b &&& c) ||| (~~~b &&& d)) 0x5A827999 w 0 digest
  let s := rounds (fun b c d => b ^^^ c ^^^ d) 0x6ED9EBA1 w 20 s
  let s := rounds (fun b c d => (b &&& c) ||| (b &&& d) ||| (c &&& d)) 0x8F1BBCDC w 40 s
  let s := rounds (fun b c d => b ^^^ c ^^^ d) 0xCA62C1D6 w 60 s
  ⟨(digest.a+s.a) &&& 0xFFFFFFFF,(digest.b+s.b) &&& 0xFFFFFFFF,(digest.c+s.c) &&& 0xFFFFFFFF,
    (digest.d+s.d) &&& 0xFFFFFFFF,(digest.e+s.e) &&& 0xFFFFFFFF⟩

def sha1ProcessMessageBlock (context : SHA1Context) : SHA1Context :=
  {context with
    messageDigest := processDigest context.messageDigest context.messageBlock
    messageBlockIndex := 0}

/-- `Message_Block[Message_Block_Index++] = byte`. -/
def storeByte (context : SHA1Context) (byte : UInt8) : SHA1Context :=
  {context with
    messageBlock := context.messageBlock.set context.messageBlockIndex byte
    messageBlockIndex := context.messageBlockIndex+1}

/-- Adds 8 to the bit count; `Corrupted` is set when both words have wrapped. -/
def countByte (context : SHA1Context) : SHA1Context :=
  let low := context.lengthLow+8
  if low = 0 then
    let high := context.lengthHigh+1
    {context with lengthLow := low, lengthHigh := high, corrupted := context.corrupted || high == 0}
  else {context with lengthLow := low}

def inputByte (context : SHA1Context) (byte : UInt8) : SHA1Context :=
  if context.corrupted then context
  else
    let context := countByte (storeByte context byte)
    if context.messageBlockIndex = 64 then sha1ProcessMessageBlock context else context

def sha1Input (context : SHA1Context) (messageArray : List UInt8) (length : UInt32) : SHA1Context :=
  if length = 0 then context
  else if context.computed || context.corrupted then {context with corrupted := true}
  else (messageArray.take length.toNat).foldl inputByte context

/-- `while (Message_Block_Index < bound) Message_Block[Message_Block_Index++] = 0`. -/
def fillZeros (context : SHA1Context) (bound : Nat) : SHA1Context :=
  (List.replicate (bound-context.messageBlockIndex) 0).foldl storeByte context

def lengthBytes (context : SHA1Context) : List UInt8 :=
  [(context.lengthHigh >>> 24).toUInt8,(context.lengthHigh >>> 16).toUInt8,
    (context.lengthHigh >>> 8).toUInt8,context.lengthHigh.toUInt8,
    (context.lengthLow >>> 24).toUInt8,(context.lengthLow >>> 16).toUInt8,
    (context.lengthLow >>> 8).toUInt8,context.lengthLow.toUInt8]

/-- The mark `0x80` and the zero bytes, with an extra block where the length does not fit. -/
def padZeros (context : SHA1Context) : SHA1Context :=
  if context.messageBlockIndex > 55 then
    fillZeros (sha1ProcessMessageBlock (fillZeros (storeByte context 0x80) 64)) 56
  else fillZeros (storeByte context 0x80) 56

def storeLength (context : SHA1Context) : SHA1Context :=
  {context with messageBlock := Memory.overwrite context.messageBlock 56 (lengthBytes context)}

def sha1PadMessage (context : SHA1Context) : SHA1Context :=
  sha1ProcessMessageBlock (storeLength (padZeros context))

/-- Returns the final context, or `none` for the result 0. -/
def sha1Result (context : SHA1Context) : Option SHA1Context :=
  if context.corrupted then none
  else if context.computed then some context
  else some {sha1PadMessage context with computed := true}

def hexDigit (digit : Nat) : UInt8 := if digit < 10 then 48 + UInt8.ofNat digit else 55 + UInt8.ofNat digit

/-- The conversion `%08X`. -/
def hexWord (word : UInt32) : List UInt8 := (digits 16 8 word.toNat).map hexDigit

/-- `sha1_hash` from an arbitrary content of its local context. -/
def sha1HashFrom (sha : SHA1Context) (source : List UInt8) : Option (List UInt8) :=
  (sha1Result (sha1Input (sha1Reset sha) source (UInt32.ofNat source.length))).map fun sha =>
    [sha.messageDigest.a,sha.messageDigest.b,sha.messageDigest.c,sha.messageDigest.d,
      sha.messageDigest.e].flatMap hexWord

/-- The local context before `SHA1Reset`; `sha1HashFrom_eq` shows its content is immaterial. -/
def uninitialised : SHA1Context :=
  ⟨⟨0,0,0,0,0⟩,0,0,List.replicate 64 0,0,false,false⟩

def sha1Hash (source : List UInt8) : Option (List UInt8) := sha1HashFrom uninitialised source

private theorem and_ones (word : UInt32) : word &&& 0xFFFFFFFF = word := by
  apply UInt32.toBitVec_inj.mp
  exact BitVec.and_allOnes

private theorem circularShift_rotl (bits word : UInt32) (positive : 0 < bits.toNat) (small : bits.toNat < 32) :
    sha1CircularShift bits word = Fips180.rotl bits.toNat word := by
  have complement : (4294967296-bits.toNat)%32 = 32-bits.toNat := by omega
  rw [sha1CircularShift,and_ones]
  apply UInt32.toBitVec_inj.mp
  simp [Fips180.rotl,BitVec.rotateLeft,BitVec.rotateLeftAux,Nat.mod_eq_of_lt small,complement]

private theorem choose_eq (b c d : UInt32) : (b &&& c) ||| (~~~b &&& d) = Fips180.ch b c d := by
  apply UInt32.toBitVec_inj.mp
  apply BitVec.eq_of_getLsbD_eq
  intro i bound
  simp only [Fips180.ch,UInt32.toBitVec_or,UInt32.toBitVec_and,UInt32.toBitVec_not,UInt32.toBitVec_xor,
    BitVec.getLsbD_or,BitVec.getLsbD_and,BitVec.getLsbD_not,BitVec.getLsbD_xor,bound]
  cases b.toBitVec.getLsbD i <;> simp

private theorem majority_eq (b c d : UInt32) :
    (b &&& c) ||| (b &&& d) ||| (c &&& d) = Fips180.maj b c d := by
  apply UInt32.toBitVec_inj.mp
  apply BitVec.eq_of_getLsbD_eq
  intro i bound
  simp only [Fips180.maj,UInt32.toBitVec_or,UInt32.toBitVec_and,UInt32.toBitVec_xor,
    BitVec.getLsbD_or,BitVec.getLsbD_and,BitVec.getLsbD_xor]
  cases b.toBitVec.getLsbD i <;> cases c.toBitVec.getLsbD i <;> simp

private theorem or_low (high low width : Nat) (small : low < 2^width) :
    high * 2^width ||| low = high * 2^width + low := by
  rw [Nat.mul_comm,Nat.two_pow_add_eq_or_of_lt small]

private theorem joined_bytes (a b c d : UInt8) :
    a.toUInt32 <<< 24 ||| b.toUInt32 <<< 16 ||| c.toUInt32 <<< 8 ||| d.toUInt32 =
      UInt32.ofNat (value 256 ([a,b,c,d].map UInt8.toNat)) := by
  have ha := a.toNat_lt
  have hb := b.toNat_lt
  have hc := c.toNat_lt
  have hd := d.toNat_lt
  have number : value 256 ([a,b,c,d].map UInt8.toNat) =
      ((a.toNat*256+b.toNat)*256+c.toNat)*256+d.toNat := by simp [value]
  have first : a.toNat*2^24 ||| b.toNat*2^16 = (a.toNat*256+b.toNat)*2^16 := by
    rw [or_low _ _ 24 (by omega)]; ring
  have second : (a.toNat*256+b.toNat)*2^16 ||| c.toNat*2^8 =
      ((a.toNat*256+b.toNat)*256+c.toNat)*2^8 := by
    rw [or_low _ _ 16 (by omega)]; ring
  apply UInt32.toNat_inj.mp
  rw [number,UInt32.toNat_ofNat_of_lt' (by simp [UInt32.size]; omega)]
  simp only [UInt32.toNat_or,UInt32.toNat_shiftLeft,UInt8.toNat_toUInt32,Nat.shiftLeft_eq]
  simp
  rw [Nat.mod_eq_of_lt (by omega),Nat.mod_eq_of_lt (by omega),Nat.mod_eq_of_lt (by omega)]
  norm_num at first second
  rw [first,second]
  exact or_low _ _ 8 (by omega)

private theorem blockWord_eq (block : List UInt8) (t : Nat) (inside : 4*t+4 ≤ block.length) :
    blockWord block t = Fips180.word block t := by
  rw [blockWord,joined_bytes,Fips180.word,← Memory.fetch_eq_take_drop block (4*t) 4 inside,
    Nat.mul_comm t 4]
  rfl

private theorem firstWords_eq (block : List UInt8) (size : block.length = 64) :
    (List.range 16).map (blockWord block) = (List.range 16).map (Fips180.schedule block) := by
  apply List.map_congr_left
  intro t member
  have bound := List.mem_range.mp member
  rw [Fips180.schedule,if_pos bound,blockWord_eq block t (by omega)]

private theorem extendWords_eq (block : List UInt8) (t : Nat) (late : 16 ≤ t) :
    extendWords ((List.range t).map (Fips180.schedule block)) t =
      (List.range (t+1)).map (Fips180.schedule block) := by
  have entry (back : Nat) (positive : 0 < back) :
      ((List.range t).map (Fips180.schedule block)).getD (t-back) 0 = Fips180.schedule block (t-back) := by
    simp [List.getD_eq_getElem?_getD,List.getElem?_range (by omega : t-back < t)]
  rw [List.range_succ,List.map_append,List.map_singleton,Fips180.schedule,if_neg (by omega)]
  rw [extendWords,entry 3 (by omega),entry 8 (by omega),entry 14 (by omega),entry 16 (by omega),
    circularShift_rotl 1 _ (by decide) (by decide)]
  rfl

private theorem extendedWords_eq (block : List UInt8) (count : Nat) :
    (List.range' 16 count).foldl extendWords ((List.range 16).map (Fips180.schedule block)) =
      (List.range (16+count)).map (Fips180.schedule block) := by
  induction count with
  | zero => rfl
  | succ count ih =>
    rw [List.range'_1_concat,List.foldl_append,ih]
    exact extendWords_eq block (16+count) (by omega)

theorem blockWords_eq (block : List UInt8) (size : block.length = 64) :
    blockWords block = (List.range 80).map (Fips180.schedule block) := by
  rw [blockWords,firstWords_eq block size]
  exact extendedWords_eq block 64

private theorem rounds_eq (f : UInt32 → UInt32 → UInt32 → UInt32) (k : UInt32) (block : List UInt8)
    (start : Nat) (inside : start+20 ≤ 80)
    (stage : ∀ t, start ≤ t → t < start+20 → Fips180.logical t = f ∧ Fips180.constant t = k)
    (working : Words) :
    rounds f k ((List.range 80).map (Fips180.schedule block)) start working =
      (List.range' start 20).foldl (Fips180.round block) working := by
  apply List.foldl_ext
  intro s t member
  obtain ⟨low,high⟩ := List.mem_range'_1.mp member
  obtain ⟨function,constant⟩ := stage t low high
  have entry : ((List.range 80).map (Fips180.schedule block)).getD t 0 = Fips180.schedule block t := by
    simp [List.getD_eq_getElem?_getD,List.getElem?_range (by omega : t < 80)]
  dsimp only
  rw [entry,← function,← constant,and_ones,Fips180.round,
    circularShift_rotl 5 _ (by decide) (by decide),circularShift_rotl 30 _ (by decide) (by decide)]
  congr 1
  rw [UInt32.add_assoc _ _ (Fips180.constant t),UInt32.add_assoc _ _ (Fips180.schedule block t),
    UInt32.add_comm (Fips180.constant t)]
  rfl

private theorem fold_eighty (f : Words → Nat → Words) (working : Words) :
    (List.range 80).foldl f working =
      (List.range' 60 20).foldl f ((List.range' 40 20).foldl f
        ((List.range' 20 20).foldl f ((List.range' 0 20).foldl f working))) := by
  rw [← List.foldl_append,← List.foldl_append,← List.foldl_append]
  rfl

theorem processDigest_eq (digest : Words) (block : List UInt8) (size : block.length = 64) :
    processDigest digest block = Fips180.compress digest block := by
  have choice : (fun b c d => (b &&& c) ||| (~~~b &&& d)) = Fips180.ch := by
    funext b c d
    exact choose_eq b c d
  have majority : (fun b c d => (b &&& c) ||| (b &&& d) ||| (c &&& d)) = Fips180.maj := by
    funext b c d
    exact majority_eq b c d
  have exclusive : (fun b c d => b ^^^ c ^^^ d) = Fips180.parity := rfl
  have first := rounds_eq Fips180.ch 0x5A827999 block 0 (by omega)
    (fun t _ high => Fips180.stage_first high)
  have second := rounds_eq Fips180.parity 0x6ED9EBA1 block 20 (by omega)
    (fun t low high => Fips180.stage_second low high)
  have third := rounds_eq Fips180.maj 0x8F1BBCDC block 40 (by omega)
    (fun t low high => Fips180.stage_third low high)
  have fourth := rounds_eq Fips180.parity 0xCA62C1D6 block 60 (by omega)
    (fun t low _ => Fips180.stage_fourth low)
  simp only [processDigest,Fips180.compress,blockWords_eq block size,and_ones,choice,majority,exclusive,
    first,second,third,fourth,fold_eighty]

/-- The bytes stand at the start of the block; what is behind them is left from an earlier block. -/
structure Pending (bytes : List UInt8) (context : SHA1Context) : Prop where
  size : context.messageBlock.length = 64
  index : context.messageBlockIndex = bytes.length
  cells : context.messageBlock.take bytes.length = bytes

theorem Pending.full {bytes : List UInt8} {context : SHA1Context} (pending : Pending bytes context)
    (filled : bytes.length = 64) : context.messageBlock = bytes := by
  have taken := pending.cells
  rwa [filled,← pending.size,List.take_length] at taken

theorem Pending.store {bytes : List UInt8} {context : SHA1Context} (pending : Pending bytes context)
    (room : bytes.length < 64) (byte : UInt8) : Pending (bytes ++ [byte]) (storeByte context byte) := by
  refine ⟨by simp [storeByte,pending.size],by simp [storeByte,pending.index],?_⟩
  have inside : bytes.length < context.messageBlock.length := by rw [pending.size]; exact room
  rw [List.length_append,List.length_singleton,storeByte,pending.index]
  rw [List.take_succ_eq_append_getElem (by simpa using inside),List.getElem_set_self,
    List.take_set_of_le (Nat.le_refl _),pending.cells]

theorem Pending.store_all {bytes : List UInt8} {context : SHA1Context} (pending : Pending bytes context)
    (more : List UInt8) (room : bytes.length+more.length ≤ 64) :
    Pending (bytes ++ more) (more.foldl storeByte context) := by
  induction more generalizing bytes context with
  | nil => simpa using pending
  | cons byte more ih =>
    rw [List.length_cons] at room
    have next := ih (pending.store (by omega) byte) (by simp; omega)
    simpa using next

@[simp] theorem storeByte_all_digest (bytes : List UInt8) (context : SHA1Context) :
    (bytes.foldl storeByte context).messageDigest = context.messageDigest := by
  induction bytes generalizing context with
  | nil => rfl
  | cons byte bytes ih => exact ih _

@[simp] theorem storeByte_all_lengthLow (bytes : List UInt8) (context : SHA1Context) :
    (bytes.foldl storeByte context).lengthLow = context.lengthLow := by
  induction bytes generalizing context with
  | nil => rfl
  | cons byte bytes ih => exact ih _

@[simp] theorem storeByte_all_lengthHigh (bytes : List UInt8) (context : SHA1Context) :
    (bytes.foldl storeByte context).lengthHigh = context.lengthHigh := by
  induction bytes generalizing context with
  | nil => rfl
  | cons byte bytes ih => exact ih _

theorem Pending.process {bytes : List UInt8} {context : SHA1Context} (pending : Pending bytes context)
    (filled : bytes.length = 64) :
    Pending [] (sha1ProcessMessageBlock context) ∧
      (sha1ProcessMessageBlock context).messageDigest = Fips180.compress context.messageDigest bytes := by
  have digest := processDigest_eq context.messageDigest context.messageBlock pending.size
  rw [pending.full filled] at digest
  unfold sha1ProcessMessageBlock
  rw [pending.full filled,digest]
  exact ⟨⟨filled,rfl,List.take_zero⟩,rfl⟩

def bitCount (context : SHA1Context) : Nat :=
  context.lengthHigh.toNat * 2^32 + context.lengthLow.toNat

private theorem count_carry (high low bytes : Nat) (counted : high*2^32+low = 8*bytes)
    (bound : low < 2^32) :
    if (low+8)%2^32 = 0 then (high+1)*2^32 = 8*(bytes+1)
    else high*2^32+(low+8)%2^32 = 8*(bytes+1) := by
  split <;> omega

theorem countByte_bitCount (context : SHA1Context) (bytes : Nat) (counted : bitCount context = 8*bytes)
    (short : 8*(bytes+1) < 2^64) :
    bitCount (countByte context) = 8*(bytes+1) ∧
      (countByte context).corrupted = context.corrupted := by
  have carry := count_carry context.lengthHigh.toNat context.lengthLow.toNat bytes counted
    context.lengthLow.toNat_lt
  have lowSum : (context.lengthLow+8).toNat = (context.lengthLow.toNat+8)%2^32 := UInt32.toNat_add _ _
  unfold countByte
  by_cases wrapped : context.lengthLow+8 = 0
  · rw [wrapped,UInt32.toNat_zero] at lowSum
    rw [if_pos lowSum.symm] at carry
    have small : context.lengthHigh.toNat+1 < 2^32 := by omega
    have next : (context.lengthHigh+1).toNat = context.lengthHigh.toNat+1 :=
      (UInt32.toNat_add _ _).trans (Nat.mod_eq_of_lt small)
    have unwrapped : (context.lengthHigh+1 == 0) = false := by
      rw [beq_eq_false_iff_ne]
      intro overflow
      rw [overflow,UInt32.toNat_zero] at next
      exact absurd next (Nat.succ_ne_zero _).symm
    simp only [bitCount,wrapped,if_true,unwrapped,Bool.or_false,next,UInt32.toNat_zero,Nat.add_zero,
      and_true]
    exact carry
  · have nonzero : (context.lengthLow.toNat+8)%2^32 ≠ 0 := by
      rw [← lowSum]
      exact fun zero => wrapped (UInt32.toNat_inj.mp zero)
    rw [if_neg nonzero] at carry
    simp only [bitCount,wrapped,if_false,lowSum,and_true]
    exact carry

-- These are proved by rewriting: a definitional comparison of the two contexts would
-- go through the digest field and evaluate the compression.
@[simp] theorem process_lengthLow (context : SHA1Context) :
    (sha1ProcessMessageBlock context).lengthLow = context.lengthLow := by
  rw [sha1ProcessMessageBlock]

@[simp] theorem process_lengthHigh (context : SHA1Context) :
    (sha1ProcessMessageBlock context).lengthHigh = context.lengthHigh := by
  rw [sha1ProcessMessageBlock]

@[simp] theorem process_corrupted (context : SHA1Context) :
    (sha1ProcessMessageBlock context).corrupted = context.corrupted := by
  rw [sha1ProcessMessageBlock]

@[simp] theorem process_computed (context : SHA1Context) :
    (sha1ProcessMessageBlock context).computed = context.computed := by
  rw [sha1ProcessMessageBlock]

theorem process_bitCount (context : SHA1Context) :
    bitCount (sha1ProcessMessageBlock context) = bitCount context := by
  rw [bitCount,process_lengthHigh,process_lengthLow,bitCount]

/-- The invariant of the loop of SHA1Input: the complete blocks of the message are in the
digest, the bytes after them are pending. -/
structure Absorbed (message : List UInt8) (context : SHA1Context) : Prop where
  pending : Pending (message.drop (64*(message.length/64))) context
  digest : context.messageDigest = Fips180.hashBlocks message (message.length/64)
  bits : bitCount context = 8*message.length
  sound : context.corrupted = false
  running : context.computed = false

theorem sha1Reset_absorbed (context : SHA1Context) (size : context.messageBlock.length = 64) :
    Absorbed [] (sha1Reset context) := by
  refine ⟨⟨?_,?_,?_⟩,?_,?_,?_,?_⟩
  · simp only [sha1Reset,size]
  · simp only [sha1Reset,List.drop_nil,List.length_nil]
  · simp only [List.drop_nil,List.length_nil,List.take_zero]
  · simp [sha1Reset,Fips180.hashBlocks,Fips180.initial]
  · simp [bitCount,sha1Reset]
  · simp only [sha1Reset]
  · simp only [sha1Reset]

private theorem countByte_keeps (context : SHA1Context) :
    (countByte context).messageBlock = context.messageBlock ∧
      (countByte context).messageBlockIndex = context.messageBlockIndex ∧
      (countByte context).messageDigest = context.messageDigest ∧
      (countByte context).computed = context.computed := by
  unfold countByte
  by_cases wrapped : context.lengthLow+8 = 0
  · simp only [wrapped,if_true,and_self]
  · simp only [wrapped,if_false,and_self]

/-- Whole blocks of the message are in the digest and a tail of it, at most one block, is
pending. -/
private structure Cut (front tail : List UInt8) (count : Nat) (context : SHA1Context) : Prop where
  blocks : front.length = 64*count
  room : tail.length ≤ 64
  pending : Pending tail context
  digest : context.messageDigest = Fips180.hashBlocks front count
  bits : bitCount context = 8*(front ++ tail).length
  sound : context.corrupted = false
  running : context.computed = false

section Cut
variable {front tail : List UInt8} {count : Nat} {context : SHA1Context}

private theorem Absorbed.cut {message : List UInt8} (absorbed : Absorbed message context) :
    ∃ front tail, message = front ++ tail ∧ tail.length < 64 ∧ Cut front tail (message.length/64) context := by
  have split := List.take_append_drop (64*(message.length/64)) message
  have frontLength : (message.take (64*(message.length/64))).length = 64*(message.length/64) := by
    rw [List.length_take]
    omega
  have tailLength : (message.drop (64*(message.length/64))).length < 64 := by
    rw [List.length_drop]
    omega
  refine ⟨_,_,split.symm,tailLength,frontLength,tailLength.le,absorbed.pending,?_,?_,absorbed.sound,
    absorbed.running⟩
  · rw [absorbed.digest,← Fips180.hashBlocks_append _ (message.drop (64*(message.length/64))) _ frontLength.ge,
      split]
  · rw [split]
    exact absorbed.bits

private theorem Cut.absorbed (cut : Cut front tail count context) (short : tail.length < 64) :
    Absorbed (front ++ tail) context := by
  have whole : (front ++ tail).length/64 = count := by
    rw [List.length_append,cut.blocks]
    omega
  refine ⟨?_,?_,cut.bits,cut.sound,cut.running⟩
  · rw [whole,← cut.blocks,List.drop_left]
    exact cut.pending
  · rw [whole,Fips180.hashBlocks_append _ _ _ cut.blocks.ge]
    exact cut.digest

private theorem Cut.byte (cut : Cut front tail count context) (room : tail.length < 64) (byte : UInt8)
    (short : 8*((front ++ tail).length+1) < 2^64) :
    Cut front (tail ++ [byte]) count (countByte (storeByte context byte)) := by
  have stored := cut.pending.store room byte
  obtain ⟨bits,sound⟩ := countByte_bitCount (storeByte context byte) _ cut.bits short
  obtain ⟨block,index,digest,computed⟩ := countByte_keeps (storeByte context byte)
  refine ⟨cut.blocks,?_,⟨block ▸ stored.size,index ▸ stored.index,block ▸ stored.cells⟩,
    digest.trans cut.digest,?_,sound.trans cut.sound,computed.trans cut.running⟩
  · rw [List.length_append,List.length_singleton]
    exact room
  · rw [bits,← List.append_assoc,@List.length_append _ (front ++ tail),List.length_singleton]

private theorem Cut.block (cut : Cut front tail count context) (full : tail.length = 64) :
    Cut (front ++ tail) [] (count+1) (sha1ProcessMessageBlock context) := by
  obtain ⟨empty,compressed⟩ := cut.pending.process full
  have last := Fips180.hashBlocks_block front tail [] count cut.blocks full
  rw [List.append_nil] at last
  refine ⟨?_,Nat.zero_le _,empty,?_,?_,?_,?_⟩
  · rw [List.length_append,cut.blocks,full]
    omega
  · rw [compressed,cut.digest,last]
  · rw [process_bitCount,List.append_nil]
    exact cut.bits
  · rw [process_corrupted]
    exact cut.sound
  · rw [process_computed]
    exact cut.running

end Cut

theorem inputByte_absorbed {message : List UInt8} {context : SHA1Context}
    (absorbed : Absorbed message context) (byte : UInt8) (short : 8*(message.length+1) < 2^64) :
    Absorbed (message ++ [byte]) (inputByte context byte) := by
  obtain ⟨front,tail,rfl,room,cut⟩ := absorbed.cut
  have counted := cut.byte room byte short
  have index : (countByte (storeByte context byte)).messageBlockIndex = (tail ++ [byte]).length :=
    counted.pending.index
  unfold inputByte
  rw [if_neg (by rw [absorbed.sound]; exact Bool.false_ne_true),List.append_assoc]
  dsimp only
  rw [index]
  by_cases full : (tail ++ [byte]).length = 64
  · rw [if_pos full]
    have next := (counted.block full).absorbed (by decide)
    rwa [List.append_nil] at next
  · rw [if_neg full]
    exact counted.absorbed (lt_of_le_of_ne counted.room full)

theorem inputBytes_absorbed {message : List UInt8} {context : SHA1Context}
    (absorbed : Absorbed message context) (more : List UInt8)
    (short : 8*(message.length+more.length) < 2^64) :
    Absorbed (message ++ more) (more.foldl inputByte context) := by
  induction more generalizing message context with
  | nil => simpa using absorbed
  | cons byte more ih =>
    rw [List.length_cons] at short
    have first := inputByte_absorbed absorbed byte (by omega)
    have rest := ih first (by rw [List.length_append,List.length_singleton]; omega)
    simpa using rest

theorem sha1Input_absorbed (context : SHA1Context) (size : context.messageBlock.length = 64)
    (message : List UInt8) (short : message.length < 2^32) :
    Absorbed message (sha1Input (sha1Reset context) message (UInt32.ofNat message.length)) := by
  have reset := sha1Reset_absorbed context size
  have count : (UInt32.ofNat message.length).toNat = message.length :=
    UInt32.toNat_ofNat_of_lt' short
  unfold sha1Input
  by_cases empty : UInt32.ofNat message.length = 0
  · have nothing : message = [] := by
      rw [empty,UInt32.toNat_zero] at count
      exact List.eq_nil_of_length_eq_zero count.symm
    rw [if_pos empty,nothing]
    exact reset
  · rw [if_neg empty,if_neg (by simp [reset.sound,reset.running]),count,List.take_length]
    have whole := inputBytes_absorbed reset message (by simp; omega)
    simpa using whole

theorem process_digest (context : SHA1Context) :
    (sha1ProcessMessageBlock context).messageDigest =
      processDigest context.messageDigest context.messageBlock := by
  rw [sha1ProcessMessageBlock]

private theorem bigEndian_word (word : UInt32) : bigEndian 4 word.toNat =
    [(word >>> 24).toUInt8,(word >>> 16).toUInt8,(word >>> 8).toUInt8,word.toUInt8] := by
  have byte (shift : UInt32) (places : Nat) (amount : shift.toNat = 8*places) (small : shift.toNat < 32) :
      UInt8.ofNat (word.toNat/256^places%256) = (word >>> shift).toUInt8 := by
    apply UInt8.toNat_inj.mp
    rw [UInt32.toNat_toUInt8,UInt32.toNat_shiftRight,Nat.mod_eq_of_lt small,amount,
      Nat.shiftRight_eq_div_pow,pow_mul,UInt8.toNat_ofNat']
    norm_num
  have last : UInt8.ofNat (word.toNat%256) = word.toUInt8 := by
    apply UInt8.toNat_inj.mp
    rw [UInt32.toNat_toUInt8,UInt8.toNat_ofNat']
    norm_num
  rw [← byte 24 3 rfl (by decide),← byte 16 2 rfl (by decide),← byte 8 1 rfl (by decide),← last]
  simp [bigEndian,digits,Nat.div_div_eq_div_mul]

theorem lengthBytes_eq (context : SHA1Context) :
    lengthBytes context = bigEndian 8 (bitCount context) := by
  have low := context.lengthLow.toNat_lt
  have high : bitCount context/256^4 = context.lengthHigh.toNat := by
    rw [bitCount]
    omega
  have rest : bitCount context%256^4 = context.lengthLow.toNat := by
    rw [bitCount]
    omega
  have split : digits 256 8 (bitCount context) =
      digits 256 4 context.lengthHigh.toNat ++ digits 256 4 context.lengthLow.toNat := by
    rw [← high,← rest,digits_mod]
    exact digits_add 256 4 4 _
  rw [bigEndian,split,List.map_append,← bigEndian,← bigEndian,
    bigEndian_word,bigEndian_word]
  rfl

theorem Pending.fill {bytes : List UInt8} {context : SHA1Context} (pending : Pending bytes context)
    (bound : Nat) (room : bytes.length ≤ bound) (inside : bound ≤ 64) :
    Pending (bytes ++ List.replicate (bound-bytes.length) 0) (fillZeros context bound) := by
  rw [fillZeros,pending.index]
  exact pending.store_all _ (by rw [List.length_replicate]; omega)

private theorem fillZeros_digest (context : SHA1Context) (bound : Nat) :
    (fillZeros context bound).messageDigest = context.messageDigest := by
  rw [fillZeros,storeByte_all_digest]

private theorem fillZeros_bitCount (context : SHA1Context) (bound : Nat) :
    bitCount (fillZeros context bound) = bitCount context := by
  rw [fillZeros,bitCount,storeByte_all_lengthHigh,storeByte_all_lengthLow,bitCount]

private theorem last_block {bytes : List UInt8} {context : SHA1Context} (pending : Pending bytes context)
    (filled : bytes.length = 56) :
    (sha1ProcessMessageBlock (storeLength context)).messageDigest =
      Fips180.compress context.messageDigest (bytes ++ bigEndian 8 (bitCount context)) := by
  have cells := pending.cells
  rw [filled] at cells
  have block : (storeLength context).messageBlock = bytes ++ bigEndian 8 (bitCount context) := by
    rw [storeLength,Memory.overwrite,cells,lengthBytes_eq,bigEndian_length,
      List.drop_eq_nil_of_le (by rw [pending.size]),List.append_nil]
  rw [process_digest,block,processDigest_eq _ _ (by simp [filled,bigEndian_length]),storeLength]

section Padding
variable {front tail : List UInt8} {count : Nat} {context : SHA1Context}

private theorem Cut.spread (cut : Cut front tail count context) (bound : Nat) (room : tail.length < bound)
    (inside : bound ≤ 64) :
    Pending (tail ++ [0x80] ++ List.replicate (bound-(tail.length+1)) 0)
      (fillZeros (storeByte context 0x80) bound) := by
  have marked := cut.pending.store (by omega) 0x80
  have size : (tail ++ [0x80]).length = tail.length+1 := by simp
  rw [← size]
  exact marked.fill bound (by omega) inside

private theorem Cut.spread_digest (cut : Cut front tail count context) (bound : Nat) :
    (fillZeros (storeByte context 0x80) bound).messageDigest = Fips180.hashBlocks front count := by
  rw [fillZeros_digest,← cut.digest]
  rfl

private theorem Cut.spread_bits (cut : Cut front tail count context) (bound : Nat) :
    bitCount (fillZeros (storeByte context 0x80) bound) = 8*(front ++ tail).length := by
  rw [fillZeros_bitCount,← cut.bits]
  rfl

private theorem Cut.roomy (cut : Cut front tail count context) (room : tail.length < 56) :
    (sha1PadMessage context).messageDigest =
      Fips180.hashBlocks (Fips180.pad (front ++ tail)) ((Fips180.pad (front ++ tail)).length/64) := by
  have spread := cut.spread 56 room (by omega)
  rw [Fips180.hash_roomy cut.blocks room,sha1PadMessage,padZeros,cut.pending.index,if_neg (by omega),
    last_block spread (by simp; omega),cut.spread_digest,cut.spread_bits]

private theorem Cut.crowded (cut : Cut front tail count context) (short : tail.length < 64)
    (crowded : 56 ≤ tail.length) :
    (sha1PadMessage context).messageDigest =
      Fips180.hashBlocks (Fips180.pad (front ++ tail)) ((Fips180.pad (front ++ tail)).length/64) := by
  have spread := cut.spread 64 short (Nat.le_refl _)
  obtain ⟨empty,compressed⟩ := spread.process (by simp; omega)
  have zeros := empty.fill 56 (by simp) (by omega)
  rw [Fips180.hash_crowded cut.blocks crowded short,sha1PadMessage,padZeros,cut.pending.index,
    if_pos (by omega),last_block zeros (by simp),fillZeros_digest,fillZeros_bitCount,process_bitCount,
    compressed,cut.spread_digest,cut.spread_bits]
  rfl

end Padding

theorem sha1PadMessage_digest {message : List UInt8} {context : SHA1Context}
    (absorbed : Absorbed message context) :
    (sha1PadMessage context).messageDigest =
      Fips180.hashBlocks (Fips180.pad message) ((Fips180.pad message).length/64) := by
  obtain ⟨front,tail,rfl,short,cut⟩ := absorbed.cut
  by_cases room : tail.length < 56
  · exact cut.roomy room
  · exact cut.crowded short (Nat.not_lt.mp room)

theorem sha1_computed (source : List UInt8) (short : source.length < 2^32) :
    Fips180.sha1 source =
      (sha1PadMessage (sha1Input (sha1Reset uninitialised) source (UInt32.ofNat source.length))).messageDigest.bytes := by
  have absorbed := sha1Input_absorbed uninitialised (by rw [uninitialised,List.length_replicate]) source short
  rw [sha1PadMessage_digest absorbed,Fips180.sha1]

def hexText (bytes : List UInt8) : List UInt8 :=
  bytes.flatMap fun byte => (digits 16 2 byte.toNat).map hexDigit

private theorem hexWord_eq (word : UInt32) :
    hexWord word = hexText (bigEndian 4 word.toNat) := by
  have regrouped := digits_regroup 16 2 4 word.toNat
  rw [hexWord,hexText,bigEndian,List.flatMap_map,regrouped,List.map_flatMap]
  apply List.flatMap_congr
  intro digit member
  have small := digits_lt (16^2) 4 word.toNat (by decide) digit member
  rw [UInt8.toNat_ofNat_of_lt' small]

theorem hexText_cons (byte : UInt8) (bytes : List UInt8) : hexText (byte::bytes) =
    hexDigit (byte.toNat/16)::hexDigit (byte.toNat%16)::hexText bytes := by
  have small : byte.toNat/16%16 = byte.toNat/16 := Nat.mod_eq_of_lt (by have := byte.toNat_lt; omega)
  simp [hexText,digits,small]

theorem hexText_length (bytes : List UInt8) : (hexText bytes).length = 2*bytes.length := by
  induction bytes with
  | nil => rfl
  | cons byte bytes ih => rw [hexText_cons,List.length_cons,List.length_cons,ih,List.length_cons]; omega

theorem hexText_append (first second : List UInt8) :
    hexText (first ++ second) = hexText first ++ hexText second := by
  simp only [hexText,List.flatMap_append]

theorem hexWords_eq (hash : Words) :
    [hash.a,hash.b,hash.c,hash.d,hash.e].flatMap hexWord = hexText hash.bytes := by
  simp only [Fips180.Words.bytes,List.flatMap_cons,List.flatMap_nil,List.append_nil,hexText_append,
    hexWord_eq]

/-- `sha1_hash` writes the digest of the standard, whatever its local context held. -/
theorem sha1HashFrom_eq (sha : SHA1Context) (size : sha.messageBlock.length = 64) (source : List UInt8)
    (short : source.length < 2^32) :
    sha1HashFrom sha source = some (hexText (Fips180.sha1 source)) := by
  have absorbed := sha1Input_absorbed sha size source short
  have digest := sha1PadMessage_digest absorbed
  unfold sha1HashFrom sha1Result
  rw [if_neg (by rw [absorbed.sound]; exact Bool.false_ne_true),
    if_neg (by rw [absorbed.running]; exact Bool.false_ne_true),Option.map_some]
  dsimp only
  rw [digest,hexWords_eq,Fips180.sha1]

theorem sha1Hash_eq (source : List UInt8) (short : source.length < 2^32) :
    sha1Hash source = some (hexText (Fips180.sha1 source)) :=
  sha1HashFrom_eq uninitialised (by rw [uninitialised,List.length_replicate]) source short

/-- The bytes of a text in upper-case hexadecimal, two digits a byte. -/
def hexadecimal (bytes : List UInt8) : List UInt8 :=
  bytes.flatMap fun byte => [byte.toNat/16,byte.toNat%16].map fun digit =>
    (Rfc4648.ascii "0123456789ABCDEF").getD digit 0

theorem hexText_hexadecimal (bytes : List UInt8) : hexText bytes = hexadecimal bytes := by
  have same (digit : Nat) (small : digit < 16) :
      hexDigit digit = (Rfc4648.ascii "0123456789ABCDEF").getD digit 0 := by
    revert digit
    decide
  induction bytes with
  | nil => rfl
  | cons byte bytes ih =>
    have bound := byte.toNat_lt
    rw [hexText_cons,ih,same _ (by omega),same _ (Nat.mod_lt _ (by decide))]
    rfl

/-- A call of `sha1_hash`: a string of a length that `unsigned` holds, what lies behind its
terminator, and what the local context held. -/
structure HashCall where
  message : List UInt8
  clean : 0 ∉ message
  short : message.length < 2^32
  rest : List UInt8
  sha : SHA1Context
  block : sha.messageBlock.length = 64

def HashCall.source (call : HashCall) : List UInt8 := call.message ++ 0::call.rest

theorem sha1Hash_text (call : HashCall) : ∃ text, sha1HashFrom call.sha (Memory.cstr call.source) = some text ∧
    text = hexadecimal (Fips180.sha1 call.message) ∧ text.length = 40 := by
  have string : Memory.cstr call.source = call.message := Memory.text_terminated call.clean call.rest
  refine ⟨_,?_,hexText_hexadecimal _,?_⟩
  · rw [string]
    exact sha1HashFrom_eq call.sha call.block call.message call.short
  · rw [hexText_length,Fips180.sha1_length]

end Libsme.Websocket
