import Libsme.Library.Positional

/-! The SHA-1 hash of FIPS 180-4: padding, message schedule and compression, as the
standard states them. Nothing here is taken from the program. -/
namespace Libsme.Semantics.Fips180
open Positional

structure Words where
  a : UInt32
  b : UInt32
  c : UInt32
  d : UInt32
  e : UInt32
deriving DecidableEq

def rotl (count : Nat) (word : UInt32) : UInt32 := ⟨word.toBitVec.rotateLeft count⟩

def ch (x y z : UInt32) : UInt32 := (x &&& y) ^^^ (~~~x &&& z)
def parity (x y z : UInt32) : UInt32 := x ^^^ y ^^^ z
def maj (x y z : UInt32) : UInt32 := (x &&& y) ^^^ (x &&& z) ^^^ (y &&& z)

def logical (t : Nat) : UInt32 → UInt32 → UInt32 → UInt32 :=
  if t < 20 then ch else if t < 40 then parity else if t < 60 then maj else parity

def constant (t : Nat) : UInt32 :=
  if t < 20 then 0x5a827999 else if t < 40 then 0x6ed9eba1
  else if t < 60 then 0x8f1bbcdc else 0xca62c1d6

def initial : Words := ⟨0x67452301,0xefcdab89,0x98badcfe,0x10325476,0xc3d2e1f0⟩

def block (message : List UInt8) (i : Nat) : List UInt8 := (message.drop (64*i)).take 64

def word (block : List UInt8) (t : Nat) : UInt32 :=
  UInt32.ofNat (value 256 (((block.drop (4*t)).take 4).map UInt8.toNat))

def schedule (block : List UInt8) (t : Nat) : UInt32 :=
  if t < 16 then word block t
  else rotl 1 (schedule block (t-3) ^^^ schedule block (t-8) ^^^
    schedule block (t-14) ^^^ schedule block (t-16))
termination_by t

def round (block : List UInt8) (working : Words) (t : Nat) : Words :=
  ⟨rotl 5 working.a + logical t working.b working.c working.d + working.e + constant t + schedule block t,
    working.a,rotl 30 working.b,working.c,working.d⟩

def compress (hash : Words) (block : List UInt8) : Words :=
  let working := (List.range 80).foldl (round block) hash
  ⟨hash.a+working.a,hash.b+working.b,hash.c+working.c,hash.d+working.d,hash.e+working.e⟩

/-- One bit `1`, zero bits up to 448 modulo 512, then the message length in bits. -/
def padding (length : Nat) : List UInt8 :=
  0x80::List.replicate ((119-length%64)%64) 0 ++ bigEndian 8 (8*length)

def pad (message : List UInt8) : List UInt8 := message ++ padding message.length

def hashBlocks (message : List UInt8) (count : Nat) : Words :=
  (List.range count).foldl (fun hash i => compress hash (block message i)) initial

def Words.bytes (hash : Words) : List UInt8 :=
  [hash.a,hash.b,hash.c,hash.d,hash.e].flatMap fun word => bigEndian 4 word.toNat

def sha1 (message : List UInt8) : List UInt8 :=
  (hashBlocks (pad message) ((pad message).length/64)).bytes

theorem stage_first {t : Nat} (high : t < 20) : logical t = ch ∧ constant t = 0x5a827999 := by
  simp only [logical,constant,high,if_true,and_self]

theorem stage_second {t : Nat} (low : 20 ≤ t) (high : t < 40) :
    logical t = parity ∧ constant t = 0x6ed9eba1 := by
  simp only [logical,constant,Nat.not_lt.mpr low,high,if_true,if_false,and_self]

theorem stage_third {t : Nat} (low : 40 ≤ t) (high : t < 60) :
    logical t = maj ∧ constant t = 0x8f1bbcdc := by
  have past : ¬t < 20 := by omega
  simp only [logical,constant,past,Nat.not_lt.mpr low,high,if_true,if_false,and_self]

theorem stage_fourth {t : Nat} (low : 60 ≤ t) : logical t = parity ∧ constant t = 0xca62c1d6 := by
  have past : ¬t < 20 := by omega
  have later : ¬t < 40 := by omega
  simp only [logical,constant,past,later,Nat.not_lt.mpr low,if_false,and_self]

theorem Words.bytes_length (hash : Words) : hash.bytes.length = 20 := by
  simp only [Words.bytes,List.flatMap_cons,List.flatMap_nil,List.length_append,bigEndian_length,
    List.length_nil]

theorem sha1_length (message : List UInt8) : (sha1 message).length = 20 :=
  Words.bytes_length _

theorem padding_length (length : Nat) : (padding length).length = (119-length%64)%64 + 9 := by
  rw [padding,List.length_append,bigEndian_length]
  simp

theorem pad_length (message : List UInt8) :
    (pad message).length = 64 * (message.length/64 + if message.length%64 < 56 then 1 else 2) := by
  rw [pad,List.length_append,padding_length]
  split <;> omega

theorem hashBlocks_succ (message : List UInt8) (count : Nat) :
    hashBlocks message (count+1) = compress (hashBlocks message count) (block message count) := by
  simp [hashBlocks,List.range_succ,List.foldl_append]

theorem hashBlocks_append (message rest : List UInt8) (count : Nat) (inside : 64*count ≤ message.length) :
    hashBlocks (message ++ rest) count = hashBlocks message count := by
  induction count with
  | zero => simp [hashBlocks]
  | succ count ih =>
    have same : block (message ++ rest) count = block message count := by
      rw [block,block,List.drop_append_of_le_length (by omega),
        List.take_append_of_le_length (by rw [List.length_drop]; omega)]
    rw [hashBlocks_succ,hashBlocks_succ,ih (by omega),same]

theorem hashBlocks_block (front middle rest : List UInt8) (i : Nat)
    (begins : front.length = 64*i) (size : middle.length = 64) :
    hashBlocks (front ++ (middle ++ rest)) (i+1) = compress (hashBlocks front i) middle := by
  have last : block (front ++ (middle ++ rest)) i = middle := by
    rw [block,← begins,List.drop_left,← size,List.take_left]
  rw [hashBlocks_succ,last,hashBlocks_append _ _ _ begins.ge]

/-- Behind a number of whole blocks the padding closes the block of the tail, or, where there
is no room, fills it and closes one more. -/
theorem hash_roomy {front tail : List UInt8} {count : Nat} (blocks : front.length = 64*count)
    (room : tail.length < 56) :
    hashBlocks (pad (front ++ tail)) ((pad (front ++ tail)).length/64) =
      compress (hashBlocks front count)
        (tail ++ [0x80] ++ List.replicate (56-(tail.length+1)) 0 ++ bigEndian 8 (8*(front ++ tail).length)) := by
  have size : (front ++ tail).length = 64*count+tail.length := by rw [List.length_append,blocks]
  have zeros : (119-(front ++ tail).length%64)%64 = 56-(tail.length+1) := by omega
  have last : (pad (front ++ tail)).length/64 = count+1 := by
    rw [pad_length,if_pos (by omega)]
    omega
  rw [last,← hashBlocks_block front _ [] count blocks (by simp [bigEndian_length]; omega)]
  congr 1
  rw [pad,padding,zeros]
  simp only [List.append_assoc,List.append_nil,List.nil_append,List.cons_append]

theorem hash_crowded {front tail : List UInt8} {count : Nat} (blocks : front.length = 64*count)
    (crowded : 56 ≤ tail.length) (short : tail.length < 64) :
    hashBlocks (pad (front ++ tail)) ((pad (front ++ tail)).length/64) =
      compress (compress (hashBlocks front count) (tail ++ [0x80] ++ List.replicate (64-(tail.length+1)) 0))
        (List.replicate 56 0 ++ bigEndian 8 (8*(front ++ tail).length)) := by
  have size : (front ++ tail).length = 64*count+tail.length := by rw [List.length_append,blocks]
  have zeros : (119-(front ++ tail).length%64)%64 = (64-(tail.length+1)) + 56 := by omega
  have last : (pad (front ++ tail)).length/64 = count+1+1 := by
    rw [pad_length,if_neg (by omega)]
    omega
  have full : (tail ++ [0x80] ++ List.replicate (64-(tail.length+1)) (0 : UInt8)).length = 64 := by
    simp
    omega
  have first := hashBlocks_block front _ [] count blocks full
  rw [List.append_nil] at first
  rw [last,← first,← hashBlocks_block _ _ [] (count+1) (by rw [List.length_append,blocks,full]; omega)
    (by simp [bigEndian_length])]
  congr 1
  rw [pad,padding,zeros,← List.replicate_append_replicate]
  simp only [List.append_assoc,List.append_nil,List.nil_append,List.cons_append]

end Libsme.Semantics.Fips180
