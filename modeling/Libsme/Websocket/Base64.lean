import Libsme.Library.Memory
import Libsme.Semantics.Rfc4648

/-! The encoder of base64.h and its agreement with RFC 4648. -/
namespace Libsme.Websocket
open Positional Semantics

/-- The table `base`; its entry 0x40 is the padding character. -/
def base : List UInt8 :=
  Rfc4648.ascii "ABCDEFGHIJKLMNOPQRSTUVWXYZabcdefghijklmnopqrstuvwxyz0123456789+/="

/-- One turn of the outer loop of `base64_encode`, on the up to three bytes its inner loop takes. -/
def encodeGroup (group : List UInt8) : List UInt8 :=
  let temp := group.length
  let prepare := (group.foldl (fun prepare byte => prepare <<< 8 ||| byte.toNat &&& 0xFF) 0) <<< ((3-temp)*8)
  (List.range 4).map fun i =>
    base.getD (if temp < i then 0x40 else prepare >>> ((3-i)*6) &&& 0x3F) 0

def encodeGroups : List UInt8 → List UInt8
  | [] => []
  | [x] => encodeGroup [x]
  | [x,y] => encodeGroup [x,y]
  | x::y::z::rest => encodeGroup [x,y,z] ++ encodeGroups rest

/-- The buffer `ret`: the characters, then the terminator. -/
def base64Encode (data : List UInt8) (dataLen : Nat) : List UInt8 :=
  let retLen := (dataLen/3 + if dataLen%3 > 0 then 1 else 0)*4+1
  Memory.overwrite (List.replicate retLen 0) 0 (encodeGroups (data.take dataLen) ++ [0])

private theorem base_eq : base = Rfc4648.alphabet ++ [Rfc4648.padding] := by decide

private theorem base_sextet (sextet : Nat) (small : sextet < 64) :
    base.getD sextet 0 = Rfc4648.alphabet.getD sextet 0 := by
  simp only [base_eq,List.getD_eq_getElem?_getD]
  rw [List.getElem?_append_left (by rw [Rfc4648.alphabet_length]; exact small)]

private theorem base_padding : base.getD 0x40 0 = Rfc4648.padding := by decide

private theorem prepare_eq (group : List UInt8) (prepare : Nat) :
    group.foldl (fun prepare byte => prepare <<< 8 ||| byte.toNat &&& 0xFF) prepare =
      prepare*256^group.length + value 256 (group.map UInt8.toNat) := by
  induction group generalizing prepare with
  | nil => simp
  | cons byte group ih =>
    have small := byte.toNat_lt
    have joined : prepare <<< 8 ||| byte.toNat &&& 0xFF = prepare*256+byte.toNat := by
      rw [show (0xFF : Nat) = 2^8-1 from rfl,Nat.and_two_pow_sub_one_of_lt_two_pow small,
        ← Nat.shiftLeft_add_eq_or_of_lt small,Nat.shiftLeft_eq]
    rw [List.foldl_cons,ih,joined,List.map_cons,value_cons,List.length_cons,List.length_map,pow_succ']
    ring

private theorem sextet_eq (number shift : Nat) :
    number >>> shift &&& 0x3F = number/2^shift%64 := by
  rw [Nat.shiftRight_eq_div_pow,show (0x3F : Nat) = 2^6-1 from rfl,Nat.and_two_pow_sub_one_eq_mod]

private theorem encodeGroup_eq (group : List UInt8) :
    encodeGroup group = (List.range 4).map fun i =>
      if group.length < i then Rfc4648.padding
      else Rfc4648.alphabet.getD
        (value 256 (group.map UInt8.toNat) * 2^((3-group.length)*8) / 2^((3-i)*6) % 64) 0 := by
  unfold encodeGroup
  apply List.map_congr_left
  intro i member
  rw [prepare_eq,Nat.zero_mul,Nat.zero_add,Nat.shiftLeft_eq]
  by_cases past : group.length < i
  · rw [if_pos past,if_pos past,base_padding]
  · rw [if_neg past,if_neg past,sextet_eq,base_sextet _ (Nat.mod_lt _ (by decide))]

private theorem encodeGroup_three (x y z : UInt8) : encodeGroup [x,y,z] =
    (digits 64 4 (value 256 [x.toNat,y.toNat,z.toNat])).map fun sextet => Rfc4648.alphabet.getD sextet 0 := by
  rw [encodeGroup_eq]
  simp [List.range_succ,digits,Nat.div_div_eq_div_mul]

private theorem encodeGroup_two (x y : UInt8) : encodeGroup [x,y] =
    ((digits 64 3 (value 256 [x.toNat,y.toNat]*2^2)).map fun sextet => Rfc4648.alphabet.getD sextet 0) ++
      [Rfc4648.padding] := by
  have first (n : Nat) : n*256/262144 = n*4/4096 := by omega
  have second (n : Nat) : n*256/4096 = n*4/64 := by omega
  have third (n : Nat) : n*256/64 = n*4 := by omega
  rw [encodeGroup_eq]
  simp [List.range_succ,digits,Nat.div_div_eq_div_mul,first,second,third]

private theorem encodeGroup_one (x : UInt8) : encodeGroup [x] =
    ((digits 64 2 (x.toNat*2^4)).map fun sextet => Rfc4648.alphabet.getD sextet 0) ++
      [Rfc4648.padding,Rfc4648.padding] := by
  have first (n : Nat) : n*65536/262144 = n*16/64 := by omega
  have second (n : Nat) : n*65536/4096 = n*16 := by omega
  rw [encodeGroup_eq]
  simp [List.range_succ,digits,value_singleton,first,second]

theorem encodeGroups_eq (data : List UInt8) : encodeGroups data = Rfc4648.encode data := by
  match data with
  | [] => rfl
  | [x] =>
    rw [encodeGroups,encodeGroup_one,Rfc4648.encode,Rfc4648.characters_one]
    simp
  | [x,y] =>
    rw [encodeGroups,encodeGroup_two,Rfc4648.encode,Rfc4648.characters_two]
    simp
  | x::y::z::rest =>
    rw [encodeGroups,encodeGroup_three,encodeGroups_eq rest,Rfc4648.encode_three]

theorem base64Encode_text (data : List UInt8) (dataLen : Nat) :
    Memory.text 0 (base64Encode data dataLen) = Rfc4648.encode (data.take dataLen) := by
  rw [base64Encode,Memory.overwrite_start,encodeGroups_eq,List.append_assoc,List.singleton_append,
    Memory.text_terminated (Rfc4648.nul_not_mem_encode _)]

end Libsme.Websocket
