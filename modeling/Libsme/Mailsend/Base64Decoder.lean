import Libsme.Mailsend.Base64
import Mathlib.Data.List.TakeWhile

/-! The base 64 decoder of libmutils, which skips what is not of the alphabet, and what it makes of
the texts of the encoders. -/
namespace Libsme.Mailsend
open Positional Semantics
open Semantics.Rfc5321 (crlf stream)

def jnk : UInt8 := 0o177
def pad : UInt8 := 0o100

def decodeTable : List UInt8 :=
  List.replicate 32 jnk ++
  [jnk,jnk,jnk,jnk,jnk,jnk,jnk,jnk,jnk,jnk,jnk,0o76,jnk,jnk,jnk,0o77,
    0o64,0o65,0o66,0o67,0o70,0o71,0o72,0o73,0o74,0o75,jnk,jnk,jnk,pad,jnk,jnk,
    jnk,0o00,0o01,0o02,0o03,0o04,0o05,0o06,0o07,0o10,0o11,0o12,0o13,0o14,0o15,0o16,
    0o17,0o20,0o21,0o22,0o23,0o24,0o25,0o26,0o27,0o30,0o31,jnk,jnk,jnk,jnk,jnk,
    jnk,0o32,0o33,0o34,0o35,0o36,0o37,0o40,0o41,0o42,0o43,0o44,0o45,0o46,0o47,0o50,
    0o51,0o52,0o53,0o54,0o55,0o56,0o57,0o60,0o61,0o62,0o63,jnk,jnk,jnk,jnk,jnk] ++
  List.replicate 128 jnk

/-- `out` are the bytes before `*d`, and `last` is `*d`, which is 0 until it is set. -/
structure Quantum where
  out : List UInt8
  last : UInt8
  e : Nat

inductive Failure where
  | padding
  | overrun
deriving DecidableEq

/-- A valid character; `room` is the size of the block. -/
def Quantum.put (quantum : Quantum) (room : Nat) (c : UInt8) : Except Failure Quantum :=
  match quantum.e with
  | 0 => if quantum.out.length < room then .ok ⟨quantum.out,c <<< 2,1⟩ else .error .overrun
  | 1 =>
    if quantum.out.length+1 < room then .ok ⟨quantum.out ++ [quantum.last ||| c >>> 4],c <<< 4,2⟩ else .error .overrun
  | 2 =>
    if quantum.out.length+1 < room then .ok ⟨quantum.out ++ [quantum.last ||| c >>> 2],c <<< 6,3⟩ else .error .overrun
  | 3 => if quantum.out.length < room then .ok ⟨quantum.out ++ [quantum.last ||| c],0,0⟩ else .error .overrun
  | e => .ok {quantum with e := e+1}

def decodeFrom (room : Nat) : List UInt8 → Quantum → Except Failure (List UInt8)
  | [], quantum => .ok quantum.out
  | char::src, quantum =>
    let c := decodeTable.getD char.toNat 0
    if c = jnk then decodeFrom room src quantum
    else if c = pad then
      if quantum.e = 3 then .ok quantum.out
      else if quantum.e = 2 ∧ src.head? = some 61 then decodeFrom room src {quantum with e := 3}
      else .error .padding
    else match quantum.put room c with
      | .error failure => .error failure
      | .ok quantum => decodeFrom room src quantum

def mutilsDecodeBase64 (src : List UInt8) : Except Failure (List UInt8) :=
  decodeFrom (4+src.length*3/4) src ⟨[],0,0⟩

/-- The low bits of a group before the low bits of the byte. -/
theorem byte_joined {width group low : Nat} (short : width < 8) (small : low < 2^width) :
    UInt8.ofNat group <<< UInt8.ofNat width ||| UInt8.ofNat low = UInt8.ofNat (group*2^width+low) := by
  apply UInt8.toNat.inj
  have room : low < 256 := Nat.lt_trans small (Nat.pow_lt_pow_right (by decide) short)
  rw [UInt8.toNat_or,UInt8.toNat_shiftLeft,UInt8.toNat_ofNat',UInt8.toNat_ofNat',UInt8.toNat_ofNat',UInt8.toNat_ofNat']
  rw [Nat.mod_eq_of_lt (show width < 2^8 by omega),Nat.mod_eq_of_lt short,Nat.mod_eq_of_lt room]
  rw [← Nat.shiftLeft_eq group,Nat.shiftLeft_add_eq_or_of_lt small,Nat.or_mod_two_pow,Nat.mod_eq_of_lt room]
  rw [Nat.shiftLeft_eq,Nat.shiftLeft_eq,Nat.mod_mul_mod]

theorem high_bits {width group : Nat} (short : width < 8) (small : group < 256) :
    UInt8.ofNat group >>> UInt8.ofNat width = UInt8.ofNat (group/2^width) := by
  apply UInt8.toNat.inj
  have less : group/2^width < 256 := Nat.lt_of_le_of_lt (Nat.div_le_self _ _) small
  rw [UInt8.toNat_shiftRight,UInt8.toNat_ofNat',UInt8.toNat_ofNat',UInt8.toNat_ofNat',Nat.mod_eq_of_lt small,
    Nat.mod_eq_of_lt (show width < 2^8 by omega),Nat.mod_eq_of_lt short,Nat.mod_eq_of_lt less,Nat.shiftRight_eq_div_pow]

theorem byte_congr {number other : Nat} (same : number%256 = other%256) : UInt8.ofNat number = UInt8.ofNat other := by
  apply UInt8.toNat.inj
  rw [UInt8.toNat_ofNat',UInt8.toNat_ofNat']
  exact same

/-- The bits that no whole byte holds yet, from the top of the next one on. -/
def pending : List Nat → UInt8
  | _::_::_::_::rest => pending rest
  | [_,_,c] => UInt8.ofNat c <<< 6
  | [_,b] => UInt8.ofNat b <<< 4
  | [a] => UInt8.ofNat a <<< 2
  | [] => 0

/-- What the decoder makes of the groups of the valid characters. -/
structure Quantum.Of (quantum : Quantum) (groups : List Nat) : Prop where
  out : quantum.out = Rfc4648.octets groups
  last : quantum.last = pending groups
  e : quantum.e = groups.length%4

section Groups
variable {groups short : List Nat}

theorem whole_append {whole : List Nat} (fours : whole.length%4 = 0) : Rfc4648.octets (whole ++ short) = Rfc4648.octets whole ++ Rfc4648.octets short ∧
    pending (whole ++ short) = pending short := by
  match whole with
  | [] => exact ⟨rfl,rfl⟩
  | [_] => simp at fours
  | [_,_] => simp at fours
  | [_,_,_] => simp at fours
  | a::b::c::d::rest =>
    obtain ⟨bytes,bits⟩ := @whole_append rest (by simp only [List.length_cons] at fours; omega)
    exact ⟨by simp only [List.cons_append,Rfc4648.octets,bytes,List.append_assoc],bits⟩

theorem whole_short (groups : List Nat) : ∃ whole short, groups = whole ++ short ∧ whole.length%4 = 0 ∧ short.length < 4 ∧
    short.length = groups.length%4 := by
  refine ⟨groups.take (4*(groups.length/4)),groups.drop (4*(groups.length/4)),(List.take_append_drop _ _).symm,?_,?_,?_⟩
  · rw [List.length_take]
    omega
  · rw [List.length_drop]
    omega
  · rw [List.length_drop]
    omega

theorem octets_length (groups : List Nat) : (Rfc4648.octets groups).length = 6*groups.length/8 := by
  match groups with
  | [] => rfl
  | [_] => simp [Rfc4648.octets]
  | [_,_] => simp [Rfc4648.octets]
  | [_,_,_] => simp [Rfc4648.octets]
  | a::b::c::d::rest =>
    have less := octets_length rest
    simp only [Rfc4648.octets,List.length_append,bigEndian_length,List.length_cons]
    omega

theorem octets_second {a c : Nat} (fits : c < 64) :
    Rfc4648.octets [a,c] = Rfc4648.octets [a] ++ [pending [a] ||| UInt8.ofNat c >>> 4] := by
  have high : UInt8.ofNat c >>> 4 = UInt8.ofNat (c/16) := @high_bits 4 c (by decide) (by omega)
  have byte : UInt8.ofNat a <<< 2 ||| UInt8.ofNat (c/16) = UInt8.ofNat (a*4+c/16) :=
    @byte_joined 2 a (c/16) (by decide) (by omega)
  rw [high,pending,byte]
  simp only [Rfc4648.octets,bigEndian,digits,value,List.foldl_cons,List.foldl_nil,List.nil_append,List.map_cons,List.map_nil]
  exact congrArg (fun byte => [byte]) (byte_congr (by omega))

theorem octets_third {a b c : Nat} (fits : c < 64) :
    Rfc4648.octets [a,b,c] = Rfc4648.octets [a,b] ++ [pending [a,b] ||| UInt8.ofNat c >>> 2] := by
  have high : UInt8.ofNat c >>> 2 = UInt8.ofNat (c/4) := @high_bits 2 c (by decide) (by omega)
  have byte : UInt8.ofNat b <<< 4 ||| UInt8.ofNat (c/4) = UInt8.ofNat (b*16+c/4) :=
    @byte_joined 4 b (c/4) (by decide) (by omega)
  rw [high,pending,byte]
  simp only [Rfc4648.octets,bigEndian,digits,value,List.foldl_cons,List.foldl_nil,List.nil_append,List.map_cons,List.map_nil,
    List.cons_append]
  exact congrArg₂ (fun first second => [first,second]) (byte_congr (by omega)) (byte_congr (by omega))

theorem octets_fourth {a b d c : Nat} (fits : c < 64) :
    Rfc4648.octets [a,b,d,c] = Rfc4648.octets [a,b,d] ++ [pending [a,b,d] ||| UInt8.ofNat c] := by
  have byte : UInt8.ofNat d <<< 6 ||| UInt8.ofNat c = UInt8.ofNat (d*64+c) := @byte_joined 6 d c (by decide) fits
  rw [pending,byte]
  simp only [Rfc4648.octets,bigEndian,digits,value,List.foldl_cons,List.foldl_nil,List.nil_append,List.map_cons,List.map_nil,
    List.cons_append,List.append_nil]
  exact congrArg₂ List.cons (byte_congr (by omega))
    (congrArg₂ (fun first second => [first,second]) (byte_congr (by omega)) (byte_congr (by omega)))

theorem Quantum.Of.put {quantum : Quantum} (made : quantum.Of groups) {room c : Nat} (fits : c < 64)
    (enough : 6*(groups.length+1)/8+1 < room) :
    ∃ next, quantum.put room (UInt8.ofNat c) = .ok next ∧ next.Of (groups ++ [c]) := by
  obtain ⟨whole,short,rfl,fours,less,_⟩ := whole_short groups
  have filled := octets_length (whole ++ short)
  rw [← made.out] at filled
  obtain ⟨out,last,e⟩ := made
  obtain ⟨bytes,bits⟩ := @whole_append short whole fours
  obtain ⟨grown,later⟩ := @whole_append (short ++ [c]) whole fours
  rw [List.length_append] at e filled enough
  rw [← List.append_assoc] at grown later
  rw [bytes] at out
  rw [bits] at last
  match short with
  | [] =>
    refine ⟨⟨quantum.out,UInt8.ofNat c <<< 2,1⟩,?_,⟨out.trans grown.symm,later.symm,?_⟩⟩
    · unfold Quantum.put
      rw [show quantum.e = 0 by simpa [fours] using e]
      exact if_pos (by omega)
    · simp [Nat.add_mod,fours]
  | [a] =>
    refine ⟨⟨quantum.out ++ [quantum.last ||| UInt8.ofNat c >>> 4],UInt8.ofNat c <<< 4,2⟩,?_,⟨?_,later.symm,?_⟩⟩
    · unfold Quantum.put
      rw [show quantum.e = 1 by simp [e,Nat.add_mod,fours]]
      exact if_pos (by omega)
    · rw [grown,out,last,List.append_assoc,← octets_second fits]
      rfl
    · simp [Nat.add_mod,fours]
  | [a,b] =>
    refine ⟨⟨quantum.out ++ [quantum.last ||| UInt8.ofNat c >>> 2],UInt8.ofNat c <<< 6,3⟩,?_,⟨?_,later.symm,?_⟩⟩
    · unfold Quantum.put
      rw [show quantum.e = 2 by simp [e,Nat.add_mod,fours]]
      exact if_pos (by omega)
    · rw [grown,out,last,List.append_assoc,← octets_third fits]
      rfl
    · simp [Nat.add_mod,fours]
  | [a,b,d] =>
    refine ⟨⟨quantum.out ++ [quantum.last ||| UInt8.ofNat c],0,0⟩,?_,⟨?_,later.symm,?_⟩⟩
    · unfold Quantum.put
      rw [show quantum.e = 3 by simp [e,Nat.add_mod,fours]]
      exact if_pos (by omega)
    · rw [grown,out,last,List.append_assoc,← octets_fourth fits]
      rfl
    · simp [fours]
  | _::_::_::_::_ => exact absurd less (by simp only [List.length_cons]; omega)

end Groups

section Decoder
variable {front tail : List UInt8} {groups : List Nat} {quantum : Quantum} {room : Nat}

theorem decodeTable_alphabet {group : Nat} (small : group < 64) :
    decodeTable.getD (Rfc4648.alphabet.getD group 0).toNat 0 = UInt8.ofNat group := by
  have all : ∀ group < 64, decodeTable.getD (Rfc4648.alphabet.getD group 0).toNat 0 = UInt8.ofNat group := by
    decide +kernel
  exact all group small

theorem decodeTable_cases (char : UInt8) :
    (∃ group, Rfc4648.sextet char = some group ∧ group < 64 ∧ decodeTable.getD char.toNat 0 = UInt8.ofNat group) ∨
    Rfc4648.sextet char = none ∧ decodeTable.getD char.toNat 0 = if char = 61 then pad else jnk := by
  have entries : ∀ number < 256, decodeTable.getD number 0 = (if number = 61 then pad else jnk) ∨
      (decodeTable.getD number 0).toNat < 64 ∧
        Rfc4648.alphabet.getD (decodeTable.getD number 0).toNat 0 = UInt8.ofNat number := by
    decide +kernel
  cases valid : Rfc4648.sextet char with
  | some group =>
    have small := Rfc4648.sextet_lt valid
    refine Or.inl ⟨group,rfl,small,?_⟩
    rw [← decodeTable_alphabet small,Rfc4648.alphabet_sextet valid]
  | none =>
    obtain same | ⟨small,character⟩ := entries char.toNat char.toNat_lt
    · refine Or.inr ⟨rfl,same.trans ?_⟩
      simp only [← UInt8.toNat_inj]
      rfl
    · rw [UInt8.ofNat_toNat] at character
      have found := Rfc4648.sextet_alphabet small
      rw [character,valid] at found
      exact absurd found (by simp)

theorem group_valid {group : Nat} (small : group < 64) : UInt8.ofNat group ≠ jnk ∧ UInt8.ofNat group ≠ pad := by
  have all : ∀ group < 64, UInt8.ofNat group ≠ jnk ∧ UInt8.ofNat group ≠ pad := by decide +kernel
  exact all group small

/-- Up to the first padding the decoder takes the groups and skips the rest. -/
theorem decodeFrom_front (made : quantum.Of groups) (plain : 61 ∉ front)
    (enough : 6*(groups.length+front.length)/8+1 < room) :
    ∃ next : Quantum, next.Of (groups ++ front.filterMap Rfc4648.sextet) ∧
      decodeFrom room (front ++ tail) quantum = decodeFrom room tail next := by
  induction front generalizing groups quantum with
  | nil => exact ⟨quantum,by simpa using made,rfl⟩
  | cons char front ih =>
    obtain ⟨other,plain⟩ := List.ne_and_not_mem_of_not_mem_cons plain
    rw [List.length_cons] at enough
    rw [List.cons_append,decodeFrom]
    obtain ⟨group,valid,small,entry⟩ | ⟨invalid,entry⟩ := decodeTable_cases char
    · obtain ⟨noJunk,noPad⟩ := group_valid small
      obtain ⟨next,put,grown⟩ := @Quantum.Of.put groups quantum made room group small (by omega)
      obtain ⟨last,holds,same⟩ := ih grown plain (by rw [List.length_append,List.length_singleton]; omega)
      refine ⟨last,?_,?_⟩
      · rwa [List.filterMap_cons_some valid,← List.singleton_append,← List.append_assoc]
      · rw [entry,if_neg noJunk,if_neg noPad,put]
        exact same
    · obtain ⟨last,holds,same⟩ := ih made plain (by omega)
      refine ⟨last,by rwa [List.filterMap_cons_none invalid],?_⟩
      rw [entry,if_neg (Ne.symm other),if_pos rfl]
      exact same

/-- What may stand from the first padding on, after so many groups. -/
def Closes (count : Nat) (rest : List UInt8) : Prop :=
  rest = [] ∨ count%4 = 3 ∨ count%4 = 2 ∧ [61,61] <+: rest

theorem decodeFrom_padding (made : quantum.Of groups) (rest : List UInt8) :
    (Closes groups.length (61::rest) → decodeFrom room (61::rest) quantum = .ok (Rfc4648.octets groups)) ∧
    (¬Closes groups.length (61::rest) → decodeFrom room (61::rest) quantum = .error .padding) := by
  have table : decodeTable.getD (61 : UInt8).toNat 0 = pad := by decide
  have third (quantum : Quantum) (last : quantum.e = 3) (rest : List UInt8) : decodeFrom room (61::rest) quantum = .ok quantum.out := by
    rw [decodeFrom]
    rw [table,if_neg (by decide),if_pos rfl,if_pos last]
  by_cases three : groups.length%4 = 3
  · have reads := third quantum (made.e.trans three) rest
    exact ⟨fun _ => by rw [reads,made.out],fun open_ => absurd (Or.inr (Or.inl three)) open_⟩
  by_cases double : groups.length%4 = 2 ∧ rest.head? = some 61
  · obtain ⟨two,next⟩ := double
    obtain ⟨more,rfl⟩ : ∃ more, rest = 61::more := by
      cases rest with
      | nil => exact absurd next (by simp)
      | cons head more => exact ⟨more,by rw [Option.some.inj next]⟩
    have reads : decodeFrom room (61::61::more) quantum = .ok quantum.out := by
      rw [decodeFrom]
      rw [table,if_neg (by decide),if_pos rfl,if_neg (by rw [made.e,two]; decide),if_pos ⟨made.e.trans two,rfl⟩]
      exact third {quantum with e := 3} rfl more
    exact ⟨fun _ => by rw [reads,made.out],fun open_ => absurd (Or.inr (Or.inr ⟨two,more,rfl⟩)) open_⟩
  · have open_ : ¬Closes groups.length (61::rest) := by
      rintro (never | same | ⟨two,more,split⟩)
      · exact absurd never (by simp)
      · exact three same
      · exact double ⟨two,by rw [← (List.cons.inj split).2]; rfl⟩
    refine ⟨fun closes => absurd closes open_,fun _ => ?_⟩
    rw [decodeFrom]
    rw [table,if_neg (by decide),if_pos rfl,if_neg (by rw [made.e]; exact three),if_neg (by rw [made.e]; exact double)]

/-- The groups before the first padding. -/
def groupsOf (src : List UInt8) : List Nat := (src.takeWhile (· ≠ 61)).filterMap Rfc4648.sextet

/-- Whatever the text, the decoder stays in its block, and fails only for padding out of place. -/
theorem decodeFrom_reads (src : List UInt8) :
    (Closes (groupsOf src).length (src.dropWhile (· ≠ 61)) → mutilsDecodeBase64 src = .ok (Rfc4648.octets (groupsOf src))) ∧
    (¬Closes (groupsOf src).length (src.dropWhile (· ≠ 61)) → mutilsDecodeBase64 src = .error .padding) := by
  have start : (⟨[],0,0⟩ : Quantum).Of [] := ⟨rfl,rfl,rfl⟩
  have plain : 61 ∉ src.takeWhile (· ≠ 61) := fun member => by simpa using List.mem_takeWhile_imp member
  have opening : src.takeWhile (· ≠ 61) <+: src := List.takeWhile_prefix _
  have less := opening.length_le
  obtain ⟨next,made,same⟩ := @decodeFrom_front (src.takeWhile (· ≠ 61)) (src.dropWhile (· ≠ 61)) [] _ (4+src.length*3/4) start plain
    (by simp only [List.length_nil]; omega)
  rw [List.takeWhile_append_dropWhile] at same
  rw [mutilsDecodeBase64,same]
  cases remains : src.dropWhile (· ≠ 61) with
  | nil => exact ⟨fun _ => by rw [decodeFrom,made.out]; rfl,fun open_ => absurd (Or.inl rfl) open_⟩
  | cons head rest =>
    have first : head = 61 := by
      have fails := List.head_dropWhile_not (fun char : UInt8 => decide (char ≠ 61)) (by rw [remains]; simp)
      simp only [remains,List.head_cons] at fails
      simpa using fails
    subst first
    exact decodeFrom_padding made rest

end Decoder

/-- The text has the groups of the data, and its padding is in place. -/
structure Spells (text data : List UInt8) : Prop where
  groups : groupsOf text = Rfc4648.sextets (Rfc4648.bits data)
  closes : Closes (groupsOf text).length (text.dropWhile (· ≠ 61))

section Spelling
variable {text data front : List UInt8}

theorem Spells.decodes (spells : Spells text data) : mutilsDecodeBase64 text = .ok data := by
  rw [(decodeFrom_reads text).1 spells.closes,spells.groups,Rfc4648.octets_sextets]

theorem split_front (plain : 61 ∉ front) (text : List UInt8) :
    groupsOf (front ++ text) = front.filterMap Rfc4648.sextet ++ groupsOf text ∧
      (front ++ text).dropWhile (· ≠ 61) = text.dropWhile (· ≠ 61) := by
  have passes : ∀ char ∈ front, decide (char ≠ 61) = true := by
    intro char member
    exact decide_eq_true fun same => plain (same ▸ member)
  exact ⟨by rw [groupsOf,List.takeWhile_append_of_pos passes,List.filterMap_append]; rfl,
    List.dropWhile_append_of_pos passes⟩

theorem sextet_characters {groups : List Nat} (small : ∀ group ∈ groups, group < 64) :
    (groups.map fun group => Rfc4648.alphabet.getD group 0).filterMap Rfc4648.sextet = groups ∧
      61 ∉ groups.map fun group => Rfc4648.alphabet.getD group 0 := by
  induction groups with
  | nil => exact ⟨rfl,List.not_mem_nil⟩
  | cons group groups ih =>
    obtain ⟨here,later⟩ := List.forall_mem_cons.mp small
    obtain ⟨same,plain⟩ := ih later
    have valid := Rfc4648.sextet_alphabet here
    refine ⟨by rw [List.map_cons,List.filterMap_cons_some valid,same],?_⟩
    rw [List.map_cons,List.mem_cons,not_or]
    refine ⟨fun equal => ?_,plain⟩
    rw [← equal] at valid
    exact absurd (Rfc4648.sextet_padding.symm.trans valid) (by simp)

theorem spells_nothing (plain : 61 ∉ text) (junk : text.filterMap Rfc4648.sextet = []) : Spells text [] := by
  obtain ⟨groups,rest⟩ := split_front plain []
  rw [List.append_nil] at groups rest
  constructor
  · rw [groups,junk]
    rfl
  · exact Or.inl rest

theorem Spells.after (spells : Spells text data) (plain : 61 ∉ front) (junk : front.filterMap Rfc4648.sextet = []) :
    Spells (front ++ text) data := by
  obtain ⟨groups,rest⟩ := split_front plain text
  rw [junk,List.nil_append] at groups
  exact ⟨groups.trans spells.groups,by rw [groups,rest]; exact spells.closes⟩

theorem Spells.three {x y z : UInt8} (spells : Spells text data) :
    Spells (Rfc4648.characters [x,y,z] ++ text) (x::y::z::data) := by
  obtain ⟨same,plain⟩ := sextet_characters (Rfc4648.sextets_lt [x,y,z])
  obtain ⟨groups,rest⟩ := split_front plain text
  have split : Rfc4648.sextets (Rfc4648.bits (x::y::z::data)) =
      Rfc4648.sextets (Rfc4648.bits [x,y,z]) ++ Rfc4648.sextets (Rfc4648.bits data) := by
    rw [Rfc4648.sextets_three,Rfc4648.sextets_three]
    simp [Rfc4648.bits,Rfc4648.sextets]
  rw [same,spells.groups] at groups
  have closes := spells.closes
  rw [spells.groups] at closes
  refine ⟨groups.trans split.symm,?_⟩
  rw [Rfc4648.characters,groups,rest,List.length_append,Rfc4648.sextets_length [x,y,z]]
  simpa [Closes,Nat.add_mod] using closes

/-- The last characters with their padding, whatever follows. -/
theorem spells_last {filler : List UInt8} (encoded : Rfc4648.encode data = Rfc4648.characters data ++ 61::filler)
    (closes : Closes (Rfc4648.sextets (Rfc4648.bits data)).length (61::(filler ++ text))) :
    Spells (Rfc4648.encode data ++ text) data := by
  obtain ⟨same,plain⟩ := sextet_characters (Rfc4648.sextets_lt data)
  obtain ⟨groups,rest⟩ := split_front plain (61::(filler ++ text))
  have none : groupsOf (61::(filler ++ text)) = [] := by simp [groupsOf]
  have stays : (61::(filler ++ text)).dropWhile (· ≠ 61) = 61::(filler ++ text) := by simp
  rw [same,none,List.append_nil] at groups
  rw [encoded,List.append_assoc,List.cons_append]
  exact ⟨groups,by rw [Rfc4648.characters,groups,rest,stays]; exact closes⟩

theorem spells_one (x : UInt8) (text : List UInt8) : Spells (Rfc4648.encode [x] ++ text) [x] := by
  have encoded : Rfc4648.encode [x] = Rfc4648.characters [x] ++ [61,61] := by
    rw [Rfc4648.encode,Rfc4648.characters_length]
    simp [Rfc4648.padding,List.replicate]
  exact spells_last encoded (Or.inr (Or.inr ⟨by rw [Rfc4648.sextets_length]; simp,text,rfl⟩))

theorem spells_two (x y : UInt8) (text : List UInt8) : Spells (Rfc4648.encode [x,y] ++ text) [x,y] := by
  have encoded : Rfc4648.encode [x,y] = Rfc4648.characters [x,y] ++ [61] := by
    rw [Rfc4648.encode,Rfc4648.characters_length]
    simp [Rfc4648.padding]
  exact spells_last encoded (Or.inr (Or.inl (by rw [Rfc4648.sextets_length]; simp)))

theorem encode_whole (x y z : UInt8) : Rfc4648.encode [x,y,z] = Rfc4648.characters [x,y,z] := by
  rw [Rfc4648.encode,Rfc4648.characters_length]
  simp

theorem encode_spells (data : List UInt8) : Spells (Rfc4648.encode data) data := by
  match data with
  | [] => exact spells_nothing List.not_mem_nil rfl
  | [x] => simpa using spells_one x []
  | [x,y] => simpa using spells_two x y []
  | x::y::z::rest =>
    have split : Rfc4648.encode (x::y::z::rest) = Rfc4648.characters [x,y,z] ++ Rfc4648.encode rest := by
      rw [encode_three,← encode_whole,encode_three]
      rfl
    rw [split]
    exact (encode_spells rest).three

theorem brokenLines_spells {step : Nat} {full : Nat → Bool} {closing : Nat → List UInt8}
    (ends : ∀ count, closing count = crlf ∨ closing count = []) (data : List UInt8) (count : Nat) :
    Spells (brokenLines step full closing count ((threes data).map Rfc4648.encode)) data := by
  have last (count : Nat) : Spells (closing count) [] := by
    obtain same | same := ends count <;> rw [same] <;> exact spells_nothing (by decide) (by decide)
  match data with
  | [] => exact last count
  | [x] => exact spells_one x _
  | [x,y] => exact spells_two x y _
  | x::y::z::rest =>
    rw [threes,List.map_cons,brokenLines,encode_whole]
    apply Spells.three
    split
    · exact (brokenLines_spells ends rest 0).after (by decide) (by decide)
    · exact brokenLines_spells ends rest _

end Spelling

section Codecs
variable (data : List UInt8)

theorem int_fits {value : Int} (positive : 0 ≤ value) (small : value < 2147483648) : int value = some value :=
  if_pos ⟨by omega,by omega⟩

theorem int_overflows {value : Int} (large : 2147483648 ≤ value) : int value = none :=
  if_neg (by omega)

/-- The space for the line of an encoded string is an int up to 1610612733 bytes. -/
theorem mutilsBase64EncodeLen_eq (len : Nat) :
    mutilsBase64EncodeLen len = if len < 1610612734 then some (((len+2)/3*4+1 : Nat) : Int) else none := by
  have third : ((len : Int)+2).tdiv 3 = ((len+2)/3 : Nat) := by
    rw [Int.tdiv_eq_ediv_of_nonneg (by omega)]
    omega
  unfold mutilsBase64EncodeLen
  by_cases short : len < 1610612734
  · rw [if_pos short,int_fits (by omega) (by omega),Option.bind_eq_bind,Option.bind_some,third,
      int_fits (by omega) (by omega),Option.bind_some,int_fits (by omega) (by omega)]
    rfl
  · rw [if_neg short]
    by_cases sum : (len : Int)+2 < 2147483648
    · rw [int_fits (by omega) sum,Option.bind_eq_bind,Option.bind_some,third,int_overflows (by omega)]
      rfl
    · rw [int_overflows (by omega)]
      rfl

/-- The decoder reads back what the encoders write. The two that break lines never fail and end
every line with CRLF; the one for credentials fills its space. -/
theorem encoders_decode (short : data.length < 1610612734) : (∃ lines, mutilsEncodeBase64 data = some (stream lines) ∧
      (∀ line ∈ lines, 10 ∉ line ∧ line.length ≤ 60) ∧ mutilsDecodeBase64 (stream lines) = .ok data) ∧
    (∃ lines, mutilsBase64Encode data = stream lines ∧ (∀ line ∈ lines, 10 ∉ line ∧ line.length ≤ 72) ∧
      mutilsDecodeBase64 (stream lines) = .ok data) ∧
    (mutilsEncodeBase64Noformat data = none ↔ data = []) ∧ mutilsBase64EncodeLen data.length = some ((encodeNoformat data).length+1) ∧
    10 ∉ encodeNoformat data ∧ mutilsDecodeBase64 (encodeNoformat data) = .ok data := by
  have whole := encoded_fours data
  refine ⟨?_,?_,?_⟩
  · have spells := @brokenLines_spells 1 (· = 15) (fun _ => crlf) (fun _ => Or.inl rfl) data 0
    obtain ⟨lines,⟨text,bounded,_⟩,_⟩ := @brokenLines_broken 1 15 (· = 15) (fun _ => crlf) _ (by decide) whole
      (fun count _ => by rw [Nat.one_mul]) (fun _ => Or.inl rfl) 0 (by decide)
    rw [Nat.mul_zero] at text
    exact ⟨lines,by rw [mutilsEncodeBase64_eq,text],bounded,text ▸ spells.decodes⟩
  · have ends (count : Nat) : (if count ≠ 0 then crlf else []) = crlf ∨
        (if count ≠ 0 then crlf else []) = [] ∧ count = 0 := by
      by_cases zero : count = 0
      · exact Or.inr ⟨if_neg (not_not.mpr zero),zero⟩
      · exact Or.inl (if_pos zero)
    have spells := @brokenLines_spells 4 (· > 71) (fun ct => if ct ≠ 0 then crlf else [])
      (fun count => (ends count).imp_right And.left) data 0
    obtain ⟨lines,⟨text,bounded,_⟩,_⟩ := @brokenLines_broken 4 18 (· > 71) (fun ct => if ct ≠ 0 then crlf else []) _
      (by decide) whole (fun count room => decide_eq_decide.mpr (by omega)) ends 0 (by decide)
    rw [Nat.mul_zero] at text
    exact ⟨lines,by rw [mutilsBase64Encode_eq,text],bounded,text ▸ spells.decodes⟩
  · rw [encodeNoformat_eq]
    refine ⟨by simp [mutilsEncodeBase64Noformat],?_,encode_oneLine data,(encode_spells data).decodes⟩
    rw [mutilsBase64EncodeLen_eq,if_pos short,encode_length]
    rfl

theorem encoders_decode_foo : (∃ lines, mutilsEncodeBase64 (Rfc4648.ascii "foo") = some (stream lines) ∧
      (∀ line ∈ lines, 10 ∉ line ∧ line.length ≤ 60) ∧ mutilsDecodeBase64 (stream lines) = .ok (Rfc4648.ascii "foo")) ∧
    (∃ lines, mutilsBase64Encode (Rfc4648.ascii "foo") = stream lines ∧ (∀ line ∈ lines, 10 ∉ line ∧ line.length ≤ 72) ∧
      mutilsDecodeBase64 (stream lines) = .ok (Rfc4648.ascii "foo")) ∧
    (mutilsEncodeBase64Noformat (Rfc4648.ascii "foo") = none ↔ Rfc4648.ascii "foo" = []) ∧
    mutilsBase64EncodeLen (Rfc4648.ascii "foo").length = some ((encodeNoformat (Rfc4648.ascii "foo")).length+1) ∧
    10 ∉ encodeNoformat (Rfc4648.ascii "foo") ∧
    mutilsDecodeBase64 (encodeNoformat (Rfc4648.ascii "foo")) = .ok (Rfc4648.ascii "foo") :=
  encoders_decode (Rfc4648.ascii "foo") (by decide)

end Codecs
end Libsme.Mailsend
