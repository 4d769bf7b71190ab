import Libsme.Library.Positional
import Mathlib.Data.List.GetD

/-! The base 64 encoding of RFC 4648, section 4: the bits of the data in order, zero bits
up to a whole number of six-bit groups, one character a group, and padding characters up
to a whole number of four. -/
namespace Libsme.Semantics.Rfc4648
open Positional

def ascii (text : String) : List UInt8 := text.toList.map fun character => UInt8.ofNat character.toNat

def alphabet : List UInt8 := ascii "ABCDEFGHIJKLMNOPQRSTUVWXYZabcdefghijklmnopqrstuvwxyz0123456789+/"

def padding : UInt8 := 61

def bits (data : List UInt8) : List Nat := data.flatMap fun byte => digits 2 8 byte.toNat

/-- Six-bit groups; the last one is filled with zero bits on the right. -/
def sextets : List Nat → List Nat
  | [] => []
  | a::b::c::d::e::f::rest => value 2 [a,b,c,d,e,f]::sextets rest
  | short => [value 2 (short ++ List.replicate (6-short.length) 0)]

def characters (data : List UInt8) : List UInt8 :=
  (sextets (bits data)).map fun sextet => alphabet.getD sextet 0

def encode (data : List UInt8) : List UInt8 :=
  characters data ++ List.replicate ((4-(characters data).length%4)%4) padding

theorem bits_append (first second : List UInt8) : bits (first ++ second) = bits first ++ bits second := by
  simp only [bits,List.flatMap_append]

theorem bits_eq_digits (data : List UInt8) :
    bits data = digits 2 (8*data.length) (value 256 (data.map UInt8.toNat)) := by
  have bytes := digits_value 256 (data.map UInt8.toNat) (by
    intro digit member
    obtain ⟨byte,_,rfl⟩ := List.mem_map.mp member
    exact byte.toNat_lt)
  rw [List.length_map] at bytes
  rw [digits_regroup 2 8,show 2^8 = 256 from rfl,bytes,List.flatMap_map]
  rfl

theorem sextets_six (number : Nat) (rest : List Nat) :
    sextets (digits 2 6 number ++ rest) = number%64::sextets rest := by
  have grouped := value_digits 2 6 number
  simp only [digits,List.nil_append,List.cons_append] at grouped ⊢
  rw [sextets,grouped]
  rfl

theorem sextets_digits (width number : Nat) (rest : List Nat) :
    sextets (digits 2 (6*width) number ++ rest) = digits 64 width number ++ sextets rest := by
  induction width generalizing number rest with
  | zero => rfl
  | succ width ih =>
    rw [Nat.mul_succ,digits_add,List.append_assoc,ih,sextets_six,digits,List.append_assoc]
    rfl

theorem sextets_one_byte (number : Nat) : sextets (digits 2 8 number) = digits 64 2 (number*2^4) := by
  have grouped := sextets_digits 2 (number*2^4) []
  rw [digits_shift 2 8 4 number (by decide),sextets] at grouped
  rw [List.append_nil,List.append_nil] at grouped
  rw [← grouped]
  simp [digits,sextets]

theorem sextets_two_bytes (number : Nat) : sextets (digits 2 16 number) = digits 64 3 (number*2^2) := by
  have grouped := sextets_digits 3 (number*2^2) []
  rw [digits_shift 2 16 2 number (by decide),sextets] at grouped
  rw [List.append_nil,List.append_nil] at grouped
  rw [← grouped]
  simp [digits,sextets]

theorem characters_three (x y z : UInt8) (rest : List UInt8) :
    characters (x::y::z::rest) =
      (digits 64 4 (value 256 [x.toNat,y.toNat,z.toNat])).map (fun sextet => alphabet.getD sextet 0) ++
        characters rest := by
  have split : x::y::z::rest = [x,y,z] ++ rest := rfl
  rw [characters,split,bits_append,bits_eq_digits]
  have grouped := sextets_digits 4 (value 256 [x.toNat,y.toNat,z.toNat]) (bits rest)
  rw [show 8*[x,y,z].length = 6*4 from rfl,show [x,y,z].map UInt8.toNat = [x.toNat,y.toNat,z.toNat] from rfl,
    grouped,List.map_append]
  rfl

theorem characters_one (x : UInt8) :
    characters [x] = (digits 64 2 (x.toNat*2^4)).map fun sextet => alphabet.getD sextet 0 := by
  have grouped := sextets_one_byte x.toNat
  rw [characters,bits,List.flatMap_singleton,grouped]

theorem characters_two (x y : UInt8) :
    characters [x,y] =
      (digits 64 3 (value 256 [x.toNat,y.toNat]*2^2)).map fun sextet => alphabet.getD sextet 0 := by
  have grouped := sextets_two_bytes (value 256 [x.toNat,y.toNat])
  rw [characters,bits_eq_digits]
  exact congrArg _ grouped

theorem encode_three (x y z : UInt8) (rest : List UInt8) :
    encode (x::y::z::rest) =
      (digits 64 4 (value 256 [x.toNat,y.toNat,z.toNat])).map (fun sextet => alphabet.getD sextet 0) ++
        encode rest := by
  have residue : ((digits 64 4 (value 256 [x.toNat,y.toNat,z.toNat])).map (fun sextet => alphabet.getD sextet 0) ++
      characters rest).length%4 = (characters rest).length%4 := by
    rw [List.length_append,List.length_map,digits_length,Nat.add_mod_left]
  rw [encode,encode,characters_three,residue,List.append_assoc]

theorem characters_length (data : List UInt8) : (characters data).length = (8*data.length+5)/6 := by
  match data with
  | [] => rfl
  | [x] => rw [characters_one]; simp
  | [x,y] => rw [characters_two]; simp
  | x::y::z::rest =>
    rw [characters_three,List.length_append,List.length_map,digits_length,characters_length rest]
    simp only [List.length_cons]
    omega

theorem padding_not_mem_alphabet : padding ∉ alphabet := by decide

theorem alphabet_length : alphabet.length = 64 := by decide

private theorem mapped_digits_mem (width number : Nat) (character : UInt8)
    (member : character ∈ (digits 64 width number).map fun sextet => alphabet.getD sextet 0) :
    character ∈ alphabet := by
  obtain ⟨sextet,inside,rfl⟩ := List.mem_map.mp member
  have small := digits_lt 64 width number (by decide) sextet inside
  rw [List.getD_eq_getElem _ _ (by rw [alphabet_length]; exact small)]
  exact List.getElem_mem _

theorem characters_subset (data : List UInt8) : characters data ⊆ alphabet := by
  intro character member
  match data with
  | [] => exact absurd member (List.not_mem_nil)
  | [x] => exact mapped_digits_mem _ _ _ (characters_one x ▸ member)
  | [x,y] => exact mapped_digits_mem _ _ _ (characters_two x y ▸ member)
  | x::y::z::rest =>
    rw [characters_three] at member
    rcases List.mem_append.mp member with group | later
    · exact mapped_digits_mem _ _ _ group
    · exact characters_subset rest later

theorem padding_not_mem_characters (data : List UInt8) : padding ∉ characters data :=
  fun member => padding_not_mem_alphabet (characters_subset data member)

theorem nul_not_mem_encode (data : List UInt8) : 0 ∉ encode data := by
  intro member
  rcases List.mem_append.mp member with character | filler
  · exact absurd (characters_subset data character) (by decide)
  · exact absurd (List.eq_of_mem_replicate filler) (by decide)

theorem encode_injective_length {first second : List UInt8} (same : encode first = encode second) :
    first.length = second.length := by
  have content (data : List UInt8) : (encode data).takeWhile (· ≠ padding) = characters data := by
    rw [encode,List.takeWhile_append_of_pos]
    · cases (4-(characters data).length%4)%4 with
      | zero => simp
      | succ count => simp [List.replicate_succ]
    · intro character member
      simpa using fun equal : character = padding => padding_not_mem_characters data (equal ▸ member)
  have lengths := congrArg List.length ((content first).symm.trans ((congrArg _ same).trans (content second)))
  rw [characters_length,characters_length] at lengths
  omega

def sextet (character : UInt8) : Option Nat := alphabet.idxOf? character

def octets : List Nat → List UInt8
  | a::b::c::d::rest => bigEndian 3 (value 64 [a,b,c,d]) ++ octets rest
  | [a,b,c] => bigEndian 2 (value 64 [a,b,c]/2^2)
  | [a,b] => bigEndian 1 (value 64 [a,b]/2^4)
  | _ => []

theorem sextet_padding : sextet padding = none := by decide

theorem sextet_alphabet {group : Nat} (small : group < 64) : sextet (alphabet.getD group 0) = some group := by
  have all : ∀ group < 64, sextet (alphabet.getD group 0) = some group := by decide +kernel
  exact all group small

theorem alphabet_sextet {character : UInt8} {group : Nat} (valid : sextet character = some group) :
    alphabet.getD group 0 = character := by
  obtain ⟨inside,same,_⟩ := List.idxOf?_eq_some_iff.mp valid
  rw [List.getD_eq_getElem _ _ inside,same]

theorem sextet_lt {character : UInt8} {group : Nat} (valid : sextet character = some group) : group < 64 := by
  obtain ⟨inside,_⟩ := List.idxOf?_eq_some_iff.mp valid
  rwa [alphabet_length] at inside

theorem octets_whole {number : Nat} (bound : number < 256^3) (rest : List Nat) :
    octets (digits 64 4 number ++ rest) = bigEndian 3 number ++ octets rest := by
  have grouped := @value_digits_of_lt 64 4 number (by omega)
  simp only [digits,List.nil_append,List.cons_append] at grouped ⊢
  rw [octets,grouped]

theorem digits_bytes (data : List UInt8) :
    digits 256 data.length (value 256 (data.map UInt8.toNat)) = data.map UInt8.toNat := by
  have bytes := digits_value 256 (data.map UInt8.toNat) (by
    intro digit member
    obtain ⟨byte,_,rfl⟩ := List.mem_map.mp member
    exact byte.toNat_lt)
  rwa [List.length_map] at bytes

theorem value_bytes_lt (data : List UInt8) : value 256 (data.map UInt8.toNat) < 256^data.length := by
  have wrapped := value_digits 256 data.length (value 256 (data.map UInt8.toNat))
  rw [digits_bytes] at wrapped
  rw [wrapped]
  exact Nat.mod_lt _ (Nat.pow_pos (by decide))

theorem bigEndian_value (data : List UInt8) : bigEndian data.length (value 256 (data.map UInt8.toNat)) = data := by
  rw [bigEndian,digits_bytes,List.map_map]
  simp [Function.comp_def]

theorem sextets_three (x y z : UInt8) (rest : List UInt8) : sextets (bits (x::y::z::rest)) =
    digits 64 4 (value 256 ([x,y,z].map UInt8.toNat)) ++ sextets (bits rest) := by
  rw [show x::y::z::rest = [x,y,z] ++ rest from rfl,bits_append,bits_eq_digits]
  exact sextets_digits 4 _ _

theorem octets_sextets (data : List UInt8) : octets (sextets (bits data)) = data := by
  match data with
  | [] => rfl
  | [x] =>
    have small := x.toNat_lt
    have grouped := sextets_one_byte x.toNat
    have same := @value_digits_of_lt 64 2 (x.toNat*2^4) (by omega)
    have back := bigEndian_value [x]
    rw [List.map_singleton,value_singleton] at back
    rw [bits,List.flatMap_singleton,grouped]
    simp only [digits,List.nil_append,List.cons_append] at same ⊢
    rw [octets,same,Nat.mul_div_cancel _ (by decide)]
    exact back
  | [x,y] =>
    have small := value_bytes_lt [x,y]
    have grouped := sextets_two_bytes (value 256 ([x,y].map UInt8.toNat))
    have same := @value_digits_of_lt 64 3 (value 256 ([x,y].map UInt8.toNat)*2^2) (by simp at small ⊢; omega)
    have back := bigEndian_value [x,y]
    rw [bits_eq_digits]
    rw [show 8*[x,y].length = 16 from rfl,grouped]
    simp only [digits,List.nil_append,List.cons_append] at same ⊢
    rw [octets,same,Nat.mul_div_cancel _ (by decide)]
    exact back
  | x::y::z::rest =>
    have back := bigEndian_value [x,y,z]
    rw [sextets_three,octets_whole (value_bytes_lt [x,y,z]),octets_sextets rest]
    rw [show (3 : Nat) = [x,y,z].length from rfl,back]
    rfl

theorem sextets_lt (data : List UInt8) : ∀ group ∈ sextets (bits data), group < 64 := by
  match data with
  | [] => exact fun _ member => absurd member List.not_mem_nil
  | [x] =>
    rw [bits,List.flatMap_singleton,sextets_one_byte]
    exact digits_lt 64 2 _ (by decide)
  | [x,y] =>
    rw [bits_eq_digits,show 8*[x,y].length = 16 from rfl,sextets_two_bytes]
    exact digits_lt 64 3 _ (by decide)
  | x::y::z::rest =>
    rw [sextets_three]
    exact List.forall_mem_append.mpr ⟨digits_lt 64 4 _ (by decide),sextets_lt rest⟩

theorem sextets_length (data : List UInt8) : (sextets (bits data)).length = (8*data.length+5)/6 := by
  have same := characters_length data
  rwa [characters,List.length_map] at same

end Libsme.Semantics.Rfc4648
