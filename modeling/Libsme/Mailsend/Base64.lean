import Libsme.Semantics.Rfc4648
import Libsme.Semantics.Rfc5321

/-! The base 64 encoders of libmutils: the one for credentials, and the two that break lines. -/
namespace Libsme.Mailsend
open Positional Semantics
open Semantics.Rfc4648 (ascii)
open Semantics.Rfc5321 (crlf stream)

def basis64 : List UInt8 := ascii "ABCDEFGHIJKLMNOPQRSTUVWXYZabcdefghijklmnopqrstuvwxyz0123456789+/"

def encodeNoformat : List UInt8 → List UInt8
  | [] => []
  | [x] => [basis64.getD (x.toNat >>> 2 &&& 0x3F) 0,basis64.getD ((x.toNat &&& 0x3) <<< 4) 0,61,61]
  | [x,y] =>
    [basis64.getD (x.toNat >>> 2 &&& 0x3F) 0,basis64.getD ((x.toNat &&& 0x3) <<< 4 ||| (y.toNat &&& 0xF0) >>> 4) 0,
      basis64.getD ((y.toNat &&& 0xF) <<< 2) 0,61]
  | x::y::z::rest =>
    [basis64.getD (x.toNat >>> 2 &&& 0x3F) 0,basis64.getD ((x.toNat &&& 0x3) <<< 4 ||| (y.toNat &&& 0xF0) >>> 4) 0,
      basis64.getD ((y.toNat &&& 0xF) <<< 2 ||| (z.toNat &&& 0xC0) >>> 6) 0,basis64.getD (z.toNat &&& 0x3F) 0] ++
      encodeNoformat rest

/-- An int, if the value is one. -/
def int (value : Int) : Option Int := if -2^31 ≤ value ∧ value < 2^31 then some value else none

/-- None where an int overflows. -/
def mutilsBase64EncodeLen (len : Int) : Option Int := do
  let sum ← int (len+2)
  let size ← int (sum.tdiv 3*4)
  int (size+1)

/-- Of a string whose `encode_len` does not overflow. -/
def mutilsEncodeBase64Noformat (string : List UInt8) : Option (List UInt8) :=
  if string = [] then none else some (encodeNoformat string)

/-- One turn of the loop of mutils_encode_base64, or what it does with a rest. -/
def tuplet : List UInt8 → List UInt8
  | [x] => [basis64.getD (x.toNat >>> 2) 0,basis64.getD (((x.toNat <<< 4) + 0) &&& 0x3f) 0,61,61]
  | [x,y] =>
    [basis64.getD (x.toNat >>> 2) 0,basis64.getD (((x.toNat <<< 4) + (y.toNat >>> 4)) &&& 0x3f) 0,
      basis64.getD (((y.toNat <<< 2) + 0) &&& 0x3f) 0,61]
  | [x,y,z] =>
    [basis64.getD (x.toNat >>> 2) 0,basis64.getD (((x.toNat <<< 4) + (y.toNat >>> 4)) &&& 0x3f) 0,
      basis64.getD (((y.toNat <<< 2) + (z.toNat >>> 6)) &&& 0x3f) 0,basis64.getD (z.toNat &&& 0x3f) 0]
  | _ => []

def output64Chunk (c1 c2 c3 : Nat) (pads : Nat) : List UInt8 :=
  [basis64.getD (c1 >>> 2) 0,basis64.getD ((c1 &&& 0x3) <<< 4 ||| (c2 &&& 0xF0) >>> 4) 0] ++
    if pads = 2 then [61,61]
    else if pads ≠ 0 then [basis64.getD ((c2 &&& 0xF) <<< 2 ||| (c3 &&& 0xC0) >>> 6) 0,61]
    else [basis64.getD ((c2 &&& 0xF) <<< 2 ||| (c3 &&& 0xC0) >>> 6) 0,basis64.getD (c3 &&& 0x3F) 0]

/-- One turn of the loop of mutilsBase64Encode, on the bytes it gets. -/
def chunk : List UInt8 → List UInt8
  | [c1] => output64Chunk c1.toNat 0 0 2
  | [c1,c2] => output64Chunk c1.toNat c2.toNat 0 1
  | [c1,c2,c3] => output64Chunk c1.toNat c2.toNat c3.toNat 0
  | _ => []

/-- The bytes by threes. -/
def threes : List UInt8 → List (List UInt8)
  | [] => []
  | [x] => [[x]]
  | [x,y] => [[x,y]]
  | x::y::z::rest => [x,y,z]::threes rest

/-- Characters four by four, with a CRLF and the counter at 0 where the line is full. -/
def brokenLines (step : Nat) (full : Nat → Bool) (closing : Nat → List UInt8) : Nat → List (List UInt8) → List UInt8
  | count, [] => closing count
  | count, four::rest =>
    four ++ if full (count+step) then crlf ++ brokenLines step full closing 0 rest
      else brokenLines step full closing (count+step) rest

def encodedLength (srcl : Nat) : Nat :=
  let i := (srcl+2)/3*4
  i+2*(i/60+1)

/-- None for the logic flow error. -/
def mutilsEncodeBase64 (src : List UInt8) : Option (List UInt8) :=
  let ret := brokenLines 1 (· = 15) (fun _ => crlf) 0 ((threes src).map tuplet)
  if ret.length ≠ encodedLength src.length then none else some ret

/-- What mutilsBase64Encode writes for a file. -/
def mutilsBase64Encode (ifp : List UInt8) : List UInt8 :=
  brokenLines 4 (· > 71) (fun ct => if ct ≠ 0 then crlf else []) 0 ((threes ifp).map chunk)

section Encoders
variable {x y z : UInt8}

def character (group : Nat) : UInt8 := basis64.getD group 0

theorem encode_one (x : UInt8) : Rfc4648.encode [x] = [character (x.toNat/4),character (x.toNat%4*16),61,61] := by
  have groups : digits 64 2 (x.toNat*2^4) = [x.toNat/4,x.toNat%4*16] := by
    have small := x.toNat_lt
    simp [digits]
    omega
  rw [Rfc4648.encode,Rfc4648.characters_one,groups]
  rfl

theorem encode_two (x y : UInt8) : Rfc4648.encode [x,y] =
    [character (x.toNat/4),character (x.toNat%4*16+y.toNat/16),character (y.toNat%16*4),61] := by
  have groups : digits 64 3 (value 256 [x.toNat,y.toNat]*2^2) =
      [x.toNat/4,x.toNat%4*16+y.toNat/16,y.toNat%16*4] := by
    have first := x.toNat_lt
    have second := y.toNat_lt
    simp [digits,value]
    omega
  rw [Rfc4648.encode,Rfc4648.characters_two,groups]
  rfl

theorem encode_three (x y z : UInt8) (rest : List UInt8) : Rfc4648.encode (x::y::z::rest) =
    [character (x.toNat/4),character (x.toNat%4*16+y.toNat/16),character (y.toNat%16*4+z.toNat/64),
      character (z.toNat%64)] ++ Rfc4648.encode rest := by
  have groups : digits 64 4 (value 256 [x.toNat,y.toNat,z.toNat]) =
      [x.toNat/4,x.toNat%4*16+y.toNat/16,y.toNat%16*4+z.toNat/64,z.toNat%64] := by
    have first := x.toNat_lt
    have second := y.toNat_lt
    have third := z.toNat_lt
    simp [digits,value]
    omega
  rw [Rfc4648.encode_three,groups]
  rfl

theorem and_three (number : Nat) : number &&& 0x3 = number%4 := Nat.and_two_pow_sub_one_eq_mod number 2
theorem and_fifteen (number : Nat) : number &&& 0xF = number%16 := Nat.and_two_pow_sub_one_eq_mod number 4
theorem and_sixtyThree (number : Nat) : number &&& 0x3F = number%64 := Nat.and_two_pow_sub_one_eq_mod number 6

theorem first_group (x : UInt8) : x.toNat >>> 2 &&& 0x3F = x.toNat/4 := by
  have small := x.toNat_lt
  rw [Nat.shiftRight_eq_div_pow,and_sixtyThree]
  exact Nat.mod_eq_of_lt (by omega)

theorem second_group (first : Nat) {second : Nat} (small : second < 256) :
    (first &&& 0x3) <<< 4 ||| (second &&& 0xF0) >>> 4 = first%4*16+second/16 := by
  have high : ∀ second < 256, (second &&& 0xF0) >>> 4 = second/16 := by decide +kernel
  rw [high second small,and_three,← Nat.shiftLeft_add_eq_or_of_lt (show second/16 < 2^4 by omega),Nat.shiftLeft_eq]

theorem third_group (second : Nat) {third : Nat} (small : third < 256) :
    (second &&& 0xF) <<< 2 ||| (third &&& 0xC0) >>> 6 = second%16*4+third/64 := by
  have high : ∀ third < 256, (third &&& 0xC0) >>> 6 = third/64 := by decide +kernel
  rw [high third small,and_fifteen,← Nat.shiftLeft_add_eq_or_of_lt (show third/64 < 2^2 by omega),Nat.shiftLeft_eq]

theorem encodeNoformat_eq (string : List UInt8) : encodeNoformat string = Rfc4648.encode string := by
  match string with
  | [] => rfl
  | [x] =>
    rw [encode_one,encodeNoformat,first_group,and_three,Nat.shiftLeft_eq]
    rfl
  | [x,y] =>
    rw [encode_two,encodeNoformat,first_group,second_group _ y.toNat_lt,and_fifteen,Nat.shiftLeft_eq]
    rfl
  | x::y::z::rest =>
    rw [encode_three,encodeNoformat,first_group,second_group _ y.toNat_lt,third_group _ z.toNat_lt,and_sixtyThree,
      encodeNoformat_eq rest]
    rfl

theorem tuplet_eq (three : List UInt8) (size : three.length = 1 ∨ three.length = 2 ∨ three.length = 3) :
    tuplet three = Rfc4648.encode three := by
  have first (x : UInt8) : x.toNat >>> 2 = x.toNat/4 := Nat.shiftRight_eq_div_pow _ 2
  have second (x : UInt8) (high : Nat) (small : high < 16) : ((x.toNat <<< 4) + high) &&& 0x3f = x.toNat%4*16+high := by
    rw [and_sixtyThree,Nat.shiftLeft_eq]
    omega
  have third (y : UInt8) (high : Nat) (small : high < 4) : ((y.toNat <<< 2) + high) &&& 0x3f = y.toNat%16*4+high := by
    rw [and_sixtyThree,Nat.shiftLeft_eq]
    omega
  have quarter (z : UInt8) : z.toNat >>> 6 = z.toNat/64 ∧ z.toNat/64 < 4 :=
    ⟨Nat.shiftRight_eq_div_pow _ 6,by have := z.toNat_lt; omega⟩
  have half (y : UInt8) : y.toNat >>> 4 = y.toNat/16 ∧ y.toNat/16 < 16 :=
    ⟨Nat.shiftRight_eq_div_pow _ 4,by have := y.toNat_lt; omega⟩
  match three with
  | [] => simp at size
  | [x] =>
    rw [encode_one,tuplet,first,second x 0 (by decide)]
    rfl
  | [x,y] =>
    rw [encode_two,tuplet,first,(half y).1,second x _ (half y).2,third y 0 (by decide)]
    rfl
  | [x,y,z] =>
    rw [encode_three,tuplet,first,(half y).1,second x _ (half y).2,(quarter z).1,third y _ (quarter z).2,and_sixtyThree]
    rfl
  | x::y::z::w::rest => simp at size

theorem chunk_eq (three : List UInt8) (size : three.length = 1 ∨ three.length = 2 ∨ three.length = 3) :
    chunk three = Rfc4648.encode three := by
  have first (x : UInt8) : x.toNat >>> 2 = x.toNat/4 := Nat.shiftRight_eq_div_pow _ 2
  match three with
  | [] => simp at size
  | [x] =>
    rw [encode_one,chunk,output64Chunk,first,second_group _ (by decide)]
    rfl
  | [x,y] =>
    rw [encode_two,chunk,output64Chunk,first,second_group _ y.toNat_lt,third_group _ (by decide)]
    rfl
  | [x,y,z] =>
    rw [encode_three,chunk,output64Chunk,first,second_group _ y.toNat_lt,third_group _ z.toNat_lt,and_sixtyThree]
    rfl
  | x::y::z::w::rest => simp at size

theorem threes_length (data : List UInt8) :
    ∀ three ∈ threes data, three.length = 1 ∨ three.length = 2 ∨ three.length = 3 := by
  match data with
  | [] => exact fun _ member => absurd member List.not_mem_nil
  | [x] => simp [threes]
  | [x,y] => simp [threes]
  | x::y::z::rest => exact List.forall_mem_cons.mpr ⟨Or.inr (Or.inr rfl),threes_length rest⟩

end Encoders

section Breaking
variable {step limit : Nat} {full : Nat → Bool} {closing : Nat → List UInt8} {chunks : List (List UInt8)}

/-- The line that `count` groups begin, and the lines after it. -/
structure Broken (limit count : Nat) (text : List UInt8) (lines : List (List UInt8)) : Prop where
  text : text = stream lines
  whole : ∀ line ∈ lines, 10 ∉ line ∧ line.length ≤ 4*limit
  first : ∀ line ∈ lines.head?, line.length ≤ 4*(limit-count)

theorem brokenLines_broken (moves : step ≠ 0) (fours : ∀ four ∈ chunks, four.length = 4 ∧ 10 ∉ four)
    (breaks : ∀ count < limit, full (step*(count+1)) = decide (count+1 = limit))
    (ends : ∀ count, closing count = crlf ∨ closing count = [] ∧ count = 0) {count : Nat} (room : count < limit) :
    ∃ lines, Broken limit count (brokenLines step full closing (step*count) chunks) lines ∧ (count ≠ 0 → lines ≠ []) := by
  induction chunks generalizing count with
  | nil =>
    rw [brokenLines]
    obtain ended | ⟨open_,zero⟩ := ends (step*count)
    · exact ⟨[[]],⟨ended,by simp,by simp⟩,fun _ => List.cons_ne_nil _ _⟩
    · exact ⟨[],⟨open_,by simp,by simp⟩,fun positive => absurd zero (Nat.mul_ne_zero moves positive)⟩
  | cons four chunks ih =>
    obtain ⟨⟨size,plain⟩,later⟩ := List.forall_mem_cons.mp fours
    have grown : step*count+step = step*(count+1) := (Nat.mul_succ step count).symm
    rw [brokenLines,grown,breaks count room]
    by_cases last : count+1 = limit
    · obtain ⟨lines,⟨text,whole,_⟩,_⟩ := ih later (show 0 < limit by omega)
      refine ⟨four::lines,⟨?_,List.forall_mem_cons.mpr ⟨⟨plain,by omega⟩,whole⟩,?_⟩,fun _ => List.cons_ne_nil _ _⟩
      · rw [Nat.mul_zero] at text
        rw [decide_eq_true last,if_pos rfl,text]
        simp [stream]
      · rintro line ⟨⟩
        omega
    · obtain ⟨lines,⟨text,whole,first⟩,some⟩ := ih later (show count+1 < limit by omega)
      obtain ⟨line,more,rfl⟩ := List.exists_cons_of_ne_nil (some (Nat.succ_ne_zero count))
      obtain ⟨⟨lineFree,_⟩,moreWhole⟩ := List.forall_mem_cons.mp whole
      have short := first line rfl
      have length : (four ++ line).length = 4+line.length := by rw [List.length_append,size]
      refine ⟨(four ++ line)::more,⟨?_,List.forall_mem_cons.mpr ⟨⟨?_,by omega⟩,moreWhole⟩,?_⟩,
        fun _ => List.cons_ne_nil _ _⟩
      · rw [decide_eq_false last,if_neg Bool.false_ne_true,text]
        simp [stream]
      · rw [List.mem_append,not_or]
        exact ⟨plain,lineFree⟩
      · rintro line' ⟨⟩
        omega

theorem brokenLines_length (fours : ∀ four ∈ chunks, four.length = 4) {count : Nat} (room : count < 15) :
    (brokenLines 1 (· = 15) (fun _ => crlf) count chunks).length = 4*chunks.length+2*((count+chunks.length)/15)+2 := by
  induction chunks generalizing count with
  | nil =>
    rw [brokenLines,List.length_nil]
    simp [crlf]
    omega
  | cons four chunks ih =>
    obtain ⟨size,later⟩ := List.forall_mem_cons.mp fours
    rw [brokenLines,List.length_append,size]
    by_cases last : count+1 = 15
    · have rest := ih later (show 0 < 15 by decide)
      rw [if_pos (decide_eq_true last),List.length_append,rest]
      simp only [crlf,List.length_cons,List.length_nil]
      omega
    · have rest := ih later (show count+1 < 15 by omega)
      rw [if_neg (by simpa using last),rest]
      simp only [List.length_cons]
      omega

theorem threes_count (data : List UInt8) : (threes data).length = (data.length+2)/3 := by
  match data with
  | [] => rfl
  | [x] => simp [threes]
  | [x,y] => simp [threes]
  | x::y::z::rest =>
    have less := threes_count rest
    rw [threes,List.length_cons,less]
    simp only [List.length_cons]
    omega

theorem encode_length (data : List UInt8) : (Rfc4648.encode data).length = (data.length+2)/3*4 := by
  rw [Rfc4648.encode,List.length_append,List.length_replicate,Rfc4648.characters_length]
  omega

theorem encode_oneLine (data : List UInt8) : 10 ∉ Rfc4648.encode data := by
  intro member
  obtain character | filler := List.mem_append.mp member
  · exact absurd (Rfc4648.characters_subset data character) (by decide)
  · exact absurd (List.eq_of_mem_replicate filler) (by decide)

end Breaking

section Codecs
variable (data : List UInt8)

theorem encoded_fours : ∀ four ∈ (threes data).map Rfc4648.encode, four.length = 4 ∧ 10 ∉ four := by
  intro four member
  obtain ⟨three,inside,rfl⟩ := List.mem_map.mp member
  have size := threes_length data three inside
  exact ⟨by rw [encode_length]; omega,encode_oneLine three⟩

theorem mutilsEncodeBase64_eq : mutilsEncodeBase64 data =
    some (brokenLines 1 (· = 15) (fun _ => crlf) 0 ((threes data).map Rfc4648.encode)) := by
  have same : (threes data).map tuplet = (threes data).map Rfc4648.encode :=
    List.map_congr_left fun three member => tuplet_eq three (threes_length data three member)
  have size := @brokenLines_length _ (fun four member => (encoded_fours data four member).1) 0 (by decide)
  rw [List.length_map,threes_count] at size
  rw [mutilsEncodeBase64,same]
  refine if_neg (not_not.mpr (size.trans ?_))
  rw [encodedLength]
  omega

theorem mutilsBase64Encode_eq : mutilsBase64Encode data =
    brokenLines 4 (· > 71) (fun ct => if ct ≠ 0 then crlf else []) 0 ((threes data).map Rfc4648.encode) := by
  have same : (threes data).map chunk = (threes data).map Rfc4648.encode :=
    List.map_congr_left fun three member => chunk_eq three (threes_length data three member)
  rw [mutilsBase64Encode,same]

end Codecs
end Libsme.Mailsend
