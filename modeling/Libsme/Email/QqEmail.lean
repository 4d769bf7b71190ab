import Libsme.Websocket.Base64

/-! base64 of qq_email.cpp, a second encoder: it swaps the bytes of a group in place and
reads the group through the bit-fields of data6, which a little-endian machine lays out
from the least significant bit. -/
namespace Libsme.Email
open Positional Semantics
open Memory (cstr fetch overwrite)
open Rfc4648 (alphabet)

structure Data6 where
  d4 : Nat
  d3 : Nat
  d2 : Nat
  d1 : Nat

def data6 (unit : List UInt8) : Data6 :=
  let word := littleEndianValue unit
  ⟨word%64,word/2^6%64,word/2^12%64,word/2^18%64⟩

def con628 (c6 : Int8) : Int8 :=
  if c6 < 26 then c6+65
  else if c6 < 52 then c6+71
  else if c6 < 62 then c6-4
  else if c6 = 62 then 43
  else 47

def character (field : Nat) : UInt8 := (con628 (Int8.ofNat field)).toUInt8

/-- The exchange of `tmp[0]` and `tmp[2]`. -/
def exchange (buf : List UInt8) (tmp : Nat) : List UInt8 :=
  let cc := buf.getD (tmp+2) 0
  (buf.set (tmp+2) (buf.getD tmp 0)).set tmp cc

structure Buffers where
  buf : List UInt8
  dbuf : List UInt8

def convert (written : Data6 → List UInt8) (i : Nat) (buffers : Buffers) : Buffers :=
  let buf := exchange buffers.buf (i*3)
  ⟨buf,overwrite buffers.dbuf (i*4) (written (data6 (fetch buf (i*3) 4)))⟩

def whole (ddd : Data6) : List UInt8 := [character ddd.d1,character ddd.d2,character ddd.d3,character ddd.d4]
def lastOne (ddd : Data6) : List UInt8 := [character ddd.d1,character ddd.d2,61,61]
def lastTwo (ddd : Data6) : List UInt8 := [character ddd.d1,character ddd.d2,character ddd.d3,61]

def wholeGroups : Nat → Nat → Buffers → Buffers
  | 0, _, buffers => buffers
  | count+1, i, buffers => wholeGroups count (i+1) (convert whole i buffers)

/-- The conversion of `len` bytes from the group with number `i` on. -/
def convertFrom (i len : Nat) (buffers : Buffers) : Buffers :=
  let buffers := wholeGroups (len/3) i buffers
  let buffers := if len%3 = 1 then convert lastOne (i+len/3) buffers else buffers
  if len%3 = 2 then convert lastTwo (i+len/3) buffers else buffers

/-- The memory at `dbuf` afterwards. -/
def base64 (dbuf buf128 : List UInt8) (len : Nat) : List UInt8 :=
  let buf := overwrite (List.replicate 256 0) 0 (cstr buf128 ++ [0])
  (convertFrom 0 len ⟨buf,dbuf⟩).dbuf

private theorem character_sextet (sextet : Nat) (small : sextet < 64) :
    character sextet = alphabet.getD sextet 0 := by
  revert sextet
  decide +kernel

private theorem exchange_append (front rest : List UInt8) (x y z : UInt8) :
    exchange (front ++ x::y::z::rest) front.length = front ++ z::y::x::rest := by
  simp [exchange]

private theorem data6_group (front rest : List UInt8) (x y z : UInt8) :
    let ddd := data6 (fetch (front ++ z::y::x::rest) front.length 4)
    [ddd.d1,ddd.d2,ddd.d3,ddd.d4] = digits 64 4 (value 256 [x.toNat,y.toNat,z.toNat]) := by
  have bounds := And.intro x.toNat_lt (And.intro y.toNat_lt z.toNat_lt)
  have cells : fetch (front ++ z::y::x::rest) front.length 4 = [z,y,x,rest.headD default] := by
    cases rest <;> simp [fetch,List.range_succ]
  have word : littleEndianValue [z,y,x,rest.headD default] =
      (((rest.headD default).toNat*256+x.toNat)*256+y.toNat)*256+z.toNat := by simp [littleEndianValue,value]
  have number : value 256 [x.toNat,y.toNat,z.toNat] = (x.toNat*256+y.toNat)*256+z.toNat := by simp [value]
  rw [cells,data6,word,number]
  simp only [digits,List.nil_append,List.cons_append,List.cons.injEq,and_true]
  omega

private theorem character_digits {width number : Nat} : (digits 64 width number).map character =
    (digits 64 width number).map fun sextet => alphabet.getD sextet 0 :=
  List.map_congr_left fun sextet member => character_sextet sextet (digits_lt 64 width number (by decide) sextet member)

private theorem whole_text (x y z : UInt8) : ∃ characters : List UInt8, characters.length = 4 ∧
    (∀ ddd : Data6, [ddd.d1,ddd.d2,ddd.d3,ddd.d4] = digits 64 4 (value 256 [x.toNat,y.toNat,z.toNat]) →
      whole ddd = characters) ∧
    ∀ rest, Rfc4648.encode (x::y::z::rest) = characters ++ Rfc4648.encode rest := by
  refine ⟨_,?_,?_,Rfc4648.encode_three x y z⟩
  · rw [List.length_map,digits_length]
  · intro ddd fields
    have mapped : whole ddd = [ddd.d1,ddd.d2,ddd.d3,ddd.d4].map character := rfl
    rw [mapped,fields,character_digits]

private theorem lastOne_text {x : UInt8} {ddd : Data6}
    (fields : [ddd.d1,ddd.d2,ddd.d3,ddd.d4] = digits 64 4 (value 256 [x.toNat,(0 : UInt8).toNat,(0 : UInt8).toNat])) :
    lastOne ddd = Rfc4648.encode [x] := by
  have number : value 256 [x.toNat,(0 : UInt8).toNat,(0 : UInt8).toNat] = x.toNat*2^4*64^2 := by
    simp [value]
    ring
  have firsts : [ddd.d1,ddd.d2] = digits 64 2 (x.toNat*2^4) := by
    rw [number,digits_shift 64 2 2 _ (by decide)] at fields
    exact congrArg (List.take 2) fields
  have mapped : lastOne ddd = [ddd.d1,ddd.d2].map character ++ [61,61] := rfl
  rw [mapped,firsts,character_digits,Rfc4648.encode,Rfc4648.characters_one]
  rfl

private theorem lastTwo_text {x y : UInt8} {ddd : Data6}
    (fields : [ddd.d1,ddd.d2,ddd.d3,ddd.d4] = digits 64 4 (value 256 [x.toNat,y.toNat,(0 : UInt8).toNat])) :
    lastTwo ddd = Rfc4648.encode [x,y] := by
  have number : value 256 [x.toNat,y.toNat,(0 : UInt8).toNat] = value 256 [x.toNat,y.toNat]*2^2*64^1 := by
    simp [value]
    ring
  have firsts : [ddd.d1,ddd.d2,ddd.d3] = digits 64 3 (value 256 [x.toNat,y.toNat]*2^2) := by
    rw [number,digits_shift 64 3 1 _ (by decide)] at fields
    exact congrArg (List.take 3) fields
  have mapped : lastTwo ddd = [ddd.d1,ddd.d2,ddd.d3].map character ++ [61] := rfl
  rw [mapped,firsts,character_digits,Rfc4648.encode,Rfc4648.characters_two]
  rfl

section Group
variable {written : Data6 → List UInt8} {characters : List UInt8} {i : Nat} {front rest dbuf : List UInt8} {x y z : UInt8}

private theorem convert_group (here : front.length = i*3)
    (text : ∀ ddd : Data6, [ddd.d1,ddd.d2,ddd.d3,ddd.d4] = digits 64 4 (value 256 [x.toNat,y.toNat,z.toNat]) →
      written ddd = characters) :
    convert written i ⟨front ++ x::y::z::rest,dbuf⟩ =
      ⟨front ++ z::y::x::rest,overwrite dbuf (i*4) characters⟩ := by
  have fields := data6_group front rest x y z
  rw [convert,← here]
  simp only [exchange_append,text _ fields]

end Group

theorem convertFrom_one (i : Nat) (buffers : Buffers) : convertFrom i 1 buffers = convert lastOne i buffers := rfl
theorem convertFrom_two (i : Nat) (buffers : Buffers) : convertFrom i 2 buffers = convert lastTwo i buffers := rfl

theorem convertFrom_three (i len : Nat) (buffers : Buffers) :
    convertFrom i (len+3) buffers = convertFrom (i+1) len (convert whole i buffers) := by
  have count : (len+3)/3 = len/3+1 := by omega
  have residue : (len+3)%3 = len%3 := by omega
  have place : i+(len/3+1) = i+1+len/3 := by omega
  rw [convertFrom,convertFrom,count,residue,wholeGroups,place]

theorem convertFrom_text {i : Nat} {front dbuf : List UInt8} (data : List UInt8) {room : Nat} (here : front.length = i*3)
    (filled : i*4 ≤ dbuf.length) (last : 0 < room ∨ data.length%3 ≠ 1) :
    (convertFrom i data.length ⟨front ++ (data ++ 0::List.replicate room 0),dbuf⟩).dbuf =
      overwrite dbuf (i*4) (Rfc4648.encode data) := by
  match data with
  | [] =>
    have nothing : Rfc4648.encode [] = [] := rfl
    rw [nothing,overwrite,List.append_nil]
    exact (List.take_append_drop _ _).symm
  | [x] =>
    obtain ⟨room,rfl⟩ := Nat.exists_eq_succ_of_ne_zero (by simp at last; omega : room ≠ 0)
    have group := @convert_group lastOne _ i front (List.replicate room 0) dbuf x 0 0 here fun _ => lastOne_text
    exact (congrArg Buffers.dbuf (convertFrom_one i _)).trans (congrArg Buffers.dbuf group)
  | [x,y] =>
    have group := @convert_group lastTwo _ i front (List.replicate room 0) dbuf x y 0 here fun _ => lastTwo_text
    exact (congrArg Buffers.dbuf (convertFrom_two i _)).trans (congrArg Buffers.dbuf group)
  | x::y::z::rest =>
    obtain ⟨characters,size,text,encoded⟩ := whole_text x y z
    have group := @convert_group whole characters i front (rest ++ 0::List.replicate room 0) dbuf x y z here text
    have longer : (front ++ [z,y,x]).length = (i+1)*3 := by
      simp only [List.length_append,List.length_cons,List.length_nil]
      omega
    have stored : (i+1)*4 ≤ (overwrite dbuf (i*4) characters).length := by
      simp only [overwrite,List.length_append,List.length_take,List.length_drop]
      omega
    have residue : 0 < room ∨ rest.length%3 ≠ 1 := by
      simp only [List.length_cons] at last
      omega
    have later := convertFrom_text rest longer stored residue
    have next : (i+1)*4 = i*4+characters.length := by omega
    rw [next,Memory.overwrite_overwrite _ _ _ filled,← encoded,List.append_assoc] at later
    rw [List.length_cons,List.length_cons,List.length_cons,convertFrom_three]
    exact (congrArg (fun buffers => (convertFrom (i+1) rest.length buffers).dbuf) group).trans later

/-- A string that base64 copies into its buffer of 256 bytes, with what follows it in memory. -/
structure Text where
  bytes : List UInt8
  clean : 0 ∉ bytes
  short : bytes.length ≤ 255
  rest : List UInt8

def Text.memory (text : Text) : List UInt8 := text.bytes ++ 0::text.rest

/-- Both encoders write the encoding of the standard: `base64` over what was at `dbuf`,
and `base64_encode` into its own string. -/
theorem base64_agrees (text : Text) (dbuf : List UInt8) :
    base64 dbuf text.memory text.bytes.length =
      overwrite dbuf 0 (cstr (Websocket.base64Encode text.memory text.bytes.length)) ∧
    cstr (Websocket.base64Encode text.memory text.bytes.length) = Rfc4648.encode text.bytes := by
  have encoded : cstr (Websocket.base64Encode text.memory text.bytes.length) = Rfc4648.encode text.bytes := by
    rw [cstr,Websocket.base64Encode_text,Text.memory,List.take_left]
  have copied : overwrite (List.replicate 256 0) 0 (cstr text.memory ++ [0]) =
      [] ++ (text.bytes ++ 0::List.replicate (255-text.bytes.length) 0) := by
    rw [Text.memory,cstr,Memory.text_terminated text.clean,Memory.overwrite_start,List.drop_replicate,
      List.length_append,List.length_singleton,← Nat.sub_sub,Nat.sub_right_comm,List.append_assoc]
    rfl
  have room : 0 < 255-text.bytes.length ∨ text.bytes.length%3 ≠ 1 := by
    have short := text.short
    omega
  refine ⟨?_,encoded⟩
  rw [encoded,base64,copied]
  exact convertFrom_text text.bytes rfl (Nat.zero_le _) room

end Libsme.Email
