import Libsme.Websocket.Base64

/-! The decoder of base64.h on what the encoder of the same file produces. Its `int`s stay
below 2^31 for texts of fewer than 2^31 characters. `need` is cleared and never read; the
store that clears it is longer than the array and reaches what the compiler puts behind it. -/
namespace Libsme.Websocket
open Positional Semantics
open Memory (cstr)

/-- The last position of a character in a string, whose terminator counts as one. -/
def strrchr (string : List UInt8) (c : UInt8) : Option Nat :=
  ((List.range (string.length+1)).filter fun i => (string ++ [0]).getD i 0 = c).getLast?

/-- `none` where `find_pos` subtracts from a null pointer. -/
def findPos (ch : UInt8) : Option Nat := strrchr base ch

/-- One turn of the outer loop of `base64_decode`, on the up to four characters its inner loop takes. -/
def decodeGroup (group : List UInt8) : Option (List UInt8) := do
  let temp := group.length
  let prepare ← group.foldlM (fun prepare ch => (findPos ch).map fun pos => prepare <<< 6 ||| pos) 0
  let prepare := prepare <<< ((4-temp)*6)
  some ((List.range (min 3 temp)).map fun i => UInt8.ofNat (prepare >>> ((2-i)*8) &&& 0xFF))

def decodeGroups : List UInt8 → Option (List (List UInt8))
  | [] => some []
  | [a] => (decodeGroup [a]).map ([·])
  | [a,b] => (decodeGroup [a,b]).map ([·])
  | [a,b,c] => (decodeGroup [a,b,c]).map ([·])
  | a::b::c::d::rest => do
    let bytes ← decodeGroup [a,b,c,d]
    let more ← decodeGroups rest
    some (bytes::more)

def charAt (data : List UInt8) (offset : Int) : UInt8 :=
  if offset < 0 then 0 else data.getD offset.toNat 0

def equalCount (data : List UInt8) (dataLen : Nat) : Nat :=
  (if charAt data ((dataLen : Int)-1) = 61 then 1 else 0) +
    (if charAt data ((dataLen : Int)-2) = 61 then 1 else 0) +
    (if charAt data ((dataLen : Int)-3) = 61 then 1 else 0)

/-- The `switch` on `equal_count`. -/
def terminatorRoom : Nat → Nat
  | 0 => 4
  | 1 => 4
  | 2 => 3
  | 3 => 2
  | _ => 0

/-- `sizeof(need)`, and the bytes that `memset(need, 0, 4)` clears. -/
def needSize : Nat := 3
def needCleared : Nat := 4

/-- What the frame has behind `need`: bytes of no use, or the bytes of `ret`, the lowest first. -/
inductive Behind where
  | unused
  | ret
deriving DecidableEq

/-- `ret` after `memset(need, 0, 4)`. -/
def Behind.clear : Behind → Nat → Nat
  | .unused, pointer => pointer
  | .ret, pointer => pointer-pointer%256^(needCleared-needSize)

/-- The pointers that outlive a turn of the outer loop, and the bytes stored with their addresses. -/
structure Frame where
  ret : Nat
  f : Nat
  stores : List (UInt8 × Nat)

def Frame.store (frame : Frame) (byte : UInt8) : Frame :=
  {frame with f := frame.f+1,stores := frame.stores ++ [(byte,frame.f)]}

def Frame.turn (behind : Behind) (frame : Frame) (bytes : List UInt8) : Frame :=
  bytes.foldl Frame.store {frame with ret := behind.clear frame.ret}

structure Decoded where
  retLen : Nat
  ret : Nat
  stores : List (UInt8 × Nat)

/-- `block` is what malloc returns; all of it is cleared first. -/
def base64Decode (behind : Behind) (block : Nat) (data : List UInt8) (dataLen : Nat) : Option Decoded := do
  let count := equalCount data dataLen
  let retLen := dataLen/4*3+terminatorRoom count
  let groups ← decodeGroups (data.take (dataLen-count))
  let frame := groups.foldl (Frame.turn behind) ⟨block,block,(List.replicate retLen 0).zipIdx block⟩
  some ⟨retLen,frame.ret,frame.stores ++ [(0,frame.f)]⟩

/-- The last byte stored at an address. -/
def stored : List (UInt8 × Nat) → Nat → Option UInt8
  | [], _ => none
  | (byte,place)::later, address => (stored later address).or (if place = address then some byte else none)

private theorem findPos_sextet (sextet : Nat) (small : sextet < 64) :
    findPos (Rfc4648.alphabet.getD sextet 0) = some sextet := by
  revert sextet
  decide +kernel

private theorem prepare_sextets (sextets : List Nat) (small : ∀ sextet ∈ sextets, sextet < 64) (prepare : Nat) :
    (sextets.map fun sextet => Rfc4648.alphabet.getD sextet 0).foldlM
      (fun prepare ch => (findPos ch).map fun pos => prepare <<< 6 ||| pos) prepare =
      some (prepare*64^sextets.length+value 64 sextets) := by
  induction sextets generalizing prepare with
  | nil => simp
  | cons sextet sextets ih =>
    have bound := small sextet List.mem_cons_self
    have joined : prepare <<< 6 ||| sextet = prepare*64+sextet := by
      rw [← Nat.shiftLeft_add_eq_or_of_lt bound,Nat.shiftLeft_eq]
    have later := ih (fun other member => small other (List.mem_cons_of_mem _ member)) (prepare*64+sextet)
    rw [List.map_cons,List.foldlM_cons,findPos_sextet sextet bound,Option.map_some,joined,Option.bind_eq_bind,
      Option.bind_some,later,value_cons,List.length_cons,pow_succ']
    congr 1
    ring

private theorem decodeGroup_sextets (sextets : List Nat) (small : ∀ sextet ∈ sextets, sextet < 64) :
    decodeGroup (sextets.map fun sextet => Rfc4648.alphabet.getD sextet 0) =
      some ((List.range (min 3 sextets.length)).map fun i =>
        UInt8.ofNat (value 64 sextets*2^((4-sextets.length)*6)/2^((2-i)*8)%256)) := by
  have joined := prepare_sextets sextets small 0
  have byte (number shift : Nat) : number >>> shift &&& 0xFF = number/2^shift%256 := by
    rw [Nat.shiftRight_eq_div_pow,show (0xFF : Nat) = 2^8-1 from rfl,Nat.and_two_pow_sub_one_eq_mod]
  rw [decodeGroup,joined,Option.bind_eq_bind,Option.bind_some,List.length_map,Nat.zero_mul,Nat.zero_add]
  simp only [byte,Nat.shiftLeft_eq]

private theorem decodeGroup_digits {width number : Nat} (bound : number < 64^width) :
    decodeGroup ((digits 64 width number).map fun sextet => Rfc4648.alphabet.getD sextet 0) =
      some ((List.range (min 3 width)).map fun i => UInt8.ofNat (number*2^((4-width)*6)/2^((2-i)*8)%256)) := by
  rw [decodeGroup_sextets _ (digits_lt 64 width number (by decide)),digits_length,value_digits_of_lt bound]

private theorem byte_eq {number : Nat} {byte : UInt8} (same : number = byte.toNat) : UInt8.ofNat number = byte := by
  rw [same,UInt8.ofNat_toNat]

private theorem decodeGroup_three (x y z : UInt8) :
    decodeGroup ((digits 64 4 (value 256 [x.toNat,y.toNat,z.toNat])).map fun sextet =>
      Rfc4648.alphabet.getD sextet 0) = some [x,y,z] := by
  have bounds := And.intro x.toNat_lt (And.intro y.toNat_lt z.toNat_lt)
  have number : value 256 [x.toNat,y.toNat,z.toNat] = (x.toNat*256+y.toNat)*256+z.toNat := by simp [value]
  rw [decodeGroup_digits (by rw [number]; omega),number]
  simp only [List.range_succ,List.range_zero,List.map_cons,List.map_nil,List.nil_append,List.cons_append,
    Nat.min_eq_left (by decide : 3 ≤ 4)]
  rw [@byte_eq _ x (by omega),@byte_eq _ y (by omega),@byte_eq _ z (by omega)]

/-- The third byte holds the two bits that fill up the last character. -/
private theorem decodeGroup_two (x y : UInt8) :
    decodeGroup ((digits 64 3 (value 256 [x.toNat,y.toNat]*2^2)).map fun sextet =>
      Rfc4648.alphabet.getD sextet 0) = some [x,y,0] := by
  have bounds := And.intro x.toNat_lt y.toNat_lt
  have number : value 256 [x.toNat,y.toNat] = x.toNat*256+y.toNat := by simp [value]
  rw [decodeGroup_digits (by rw [number]; omega),number]
  simp only [List.range_succ,List.range_zero,List.map_cons,List.map_nil,List.nil_append,List.cons_append,
    Nat.min_self]
  rw [@byte_eq _ x (by omega),@byte_eq _ y (by omega),@byte_eq _ 0 (by rw [UInt8.toNat_zero]; omega)]

private theorem decodeGroup_one (x : UInt8) :
    decodeGroup ((digits 64 2 (x.toNat*2^4)).map fun sextet => Rfc4648.alphabet.getD sextet 0) = some [x,0] := by
  have bound := x.toNat_lt
  rw [decodeGroup_digits (by omega)]
  simp only [List.range_succ,List.range_zero,List.map_cons,List.map_nil,List.nil_append,List.cons_append,
    Nat.min_eq_right (by decide : 2 ≤ 3)]
  rw [@byte_eq _ x (by omega),@byte_eq _ 0 (by rw [UInt8.toNat_zero]; omega)]

/-- The bytes that a last group gives too many. -/
def surplus (data : List UInt8) : Nat := if data.length%3 = 0 then 0 else 1

theorem decodeGroups_characters (data : List UInt8) : ∃ groups, decodeGroups (Rfc4648.characters data) = some groups ∧
    groups.flatten = data ++ List.replicate (surplus data) 0 ∧ (data ≠ [] → groups ≠ []) := by
  match data with
  | [] => exact ⟨[],rfl,rfl,fun nonempty => absurd rfl nonempty⟩
  | [x] =>
    have group := decodeGroup_one x
    rw [← Rfc4648.characters_one] at group
    exact ⟨[[x,0]],congrArg (Option.map ([·])) group,rfl,nofun⟩
  | [x,y] =>
    have group := decodeGroup_two x y
    rw [← Rfc4648.characters_two] at group
    exact ⟨[[x,y,0]],congrArg (Option.map ([·])) group,rfl,nofun⟩
  | x::y::z::rest =>
    have group := decodeGroup_three x y z
    obtain ⟨groups,later,bytes,-⟩ := decodeGroups_characters rest
    have residue : surplus (x::y::z::rest) = surplus rest := by
      have same : (x::y::z::rest).length%3 = rest.length%3 := by
        simp only [List.length_cons]
        omega
      rw [surplus,same]
      rfl
    refine ⟨[x,y,z]::groups,?_,?_,nofun⟩
    · rw [Rfc4648.characters_three]
      simp only [digits,List.nil_append,List.cons_append,List.map_cons,List.map_nil] at group ⊢
      rw [decodeGroups,group,later]
      rfl
    · rw [List.flatten_cons,bytes,residue]
      rfl

theorem foldl_store (frame : Frame) (bytes : List UInt8) : bytes.foldl Frame.store frame =
    ⟨frame.ret,frame.f+bytes.length,frame.stores ++ bytes.zipIdx frame.f⟩ := by
  induction bytes generalizing frame with
  | nil => simp
  | cons byte bytes ih =>
    rw [List.foldl_cons,ih,Frame.store,List.zipIdx_cons,List.length_cons,List.append_assoc,Nat.add_assoc,
      Nat.add_comm 1]
    rfl

theorem Behind.clear_clear (behind : Behind) (pointer : Nat) :
    behind.clear (behind.clear pointer) = behind.clear pointer := by
  cases behind with
  | unused => rfl
  | ret =>
    simp only [Behind.clear,needCleared,needSize]
    omega

theorem turn_eq (behind : Behind) (frame : Frame) (bytes : List UInt8) : frame.turn behind bytes =
    ⟨behind.clear frame.ret,frame.f+bytes.length,frame.stores ++ bytes.zipIdx frame.f⟩ :=
  foldl_store _ bytes

/-- The turns store one group behind the other, and each of them clears `need`. -/
theorem foldl_turn (behind : Behind) {groups : List (List UInt8)} (nonempty : groups ≠ []) (frame : Frame) :
    groups.foldl (Frame.turn behind) frame =
      ⟨behind.clear frame.ret,frame.f+groups.flatten.length,frame.stores ++ groups.flatten.zipIdx frame.f⟩ := by
  induction groups generalizing frame with
  | nil => exact absurd rfl nonempty
  | cons bytes groups ih =>
    rw [List.foldl_cons,turn_eq,List.flatten_cons,List.length_append,List.zipIdx_append,← List.append_assoc,
      ← Nat.add_assoc]
    cases groups with
    | nil => simp
    | cons next groups =>
      rw [ih nofun,behind.clear_clear]

theorem stored_zipIdx (bytes : List UInt8) (start address : Nat) :
    stored (bytes.zipIdx start) address = if start ≤ address then bytes[address-start]? else none := by
  induction bytes generalizing start with
  | nil => simp [stored]
  | cons byte bytes ih =>
    rw [List.zipIdx_cons,stored,ih]
    rcases Nat.lt_trichotomy address start with below | rfl | above
    · rw [if_neg (by omega),if_neg (by omega),if_neg (by omega)]
      rfl
    · rw [if_neg (by omega),if_pos rfl,if_pos (Nat.le_refl _),Nat.sub_self]
      rfl
    · rw [if_pos (Nat.succ_le_of_lt above),if_neg (by omega),if_pos (by omega),Option.or_none,
        show address-start = address-(start+1)+1 by omega,List.getElem?_cons_succ]

theorem stored_append (earlier later : List (UInt8 × Nat)) (address : Nat) :
    stored (earlier ++ later) address = (stored later address).or (stored earlier address) := by
  induction earlier with
  | nil => simp [stored]
  | cons store earlier ih => rw [List.cons_append,stored,ih,stored,Option.or_assoc]

section Padding
variable {data characters rest : List UInt8} {padding : Nat}

theorem charAt_padding_iff (clean : (61 : UInt8) ∉ characters) (memory : data = characters ++ List.replicate padding 61 ++ rest)
    {back : Nat} (positive : 0 < back) (within : back ≤ characters.length+padding) :
    charAt data (((characters.length+padding : Nat) : Int)-back) = 61 ↔ back ≤ padding := by
  have place : ((characters.length+padding : Nat) : Int)-back = (characters.length+padding-back : Nat) := by omega
  have size : (characters ++ List.replicate padding 61).length = characters.length+padding := by simp
  rw [charAt,place,if_neg (by omega),Int.toNat_natCast,memory,List.getD_append _ _ _ _ (by rw [size]; omega)]
  by_cases filled : back ≤ padding
  · rw [List.getD_append_right _ _ _ _ (by omega),List.getD_replicate _ (by omega)]
    exact iff_of_true rfl filled
  · have inside : characters.length+padding-back < characters.length := by omega
    rw [List.getD_append _ _ _ _ inside,List.getD_eq_getElem _ _ inside]
    exact iff_of_false (fun same => clean (same ▸ List.getElem_mem inside)) filled

theorem equalCount_eq (clean : (61 : UInt8) ∉ characters) (memory : data = characters ++ List.replicate padding 61 ++ rest)
    (few : padding ≤ 2) (long : 3 ≤ characters.length+padding) :
    equalCount data (characters.length+padding) = padding := by
  have last := @charAt_padding_iff _ _ _ _ clean memory 1 (by decide) (by omega)
  have second := @charAt_padding_iff _ _ _ _ clean memory 2 (by decide) (by omega)
  have third := @charAt_padding_iff _ _ _ _ clean memory 3 (by decide) long
  simp only [equalCount]
  norm_cast at last second third ⊢
  simp only [last,second,third]
  split <;> split <;> split <;> omega

end Padding

theorem base64Decode_characters (behind : Behind) (block : Nat) {data memory rest : List UInt8} {padding : Nat}
    (nonempty : data ≠ []) (filled : padding = (4-(Rfc4648.characters data).length%4)%4)
    (layout : memory = Rfc4648.characters data ++ List.replicate padding 61 ++ rest) :
    base64Decode behind block memory ((Rfc4648.characters data).length+padding) =
      some ⟨data.length+surplus data+4,behind.clear block,(List.replicate (data.length+surplus data+4) 0).zipIdx block ++
        (data ++ List.replicate (surplus data) 0 ++ [0]).zipIdx block⟩ := by
  have positive := List.length_pos_of_ne_nil nonempty
  have size := Rfc4648.characters_length data
  have count := equalCount_eq (Rfc4648.padding_not_mem_characters data) layout (by omega) (by omega)
  have allocated : ((Rfc4648.characters data).length+padding)/4*3+terminatorRoom padding =
      data.length+surplus data+4 := by
    have residues : data.length%3 = 0 ∧ padding = 0 ∨ data.length%3 = 2 ∧ padding = 1 ∨
        data.length%3 = 1 ∧ padding = 2 := by omega
    rw [size]
    clear filled layout count size
    obtain ⟨residue,rfl⟩ | ⟨residue,rfl⟩ | ⟨residue,rfl⟩ := residues
    · rw [surplus,if_pos residue,terminatorRoom]
      omega
    · rw [surplus,if_neg (by omega),terminatorRoom]
      omega
    · rw [surplus,if_neg (by omega),terminatorRoom]
      omega
  obtain ⟨groups,decoded,bytes,turns⟩ := decodeGroups_characters data
  rw [base64Decode,count,Nat.add_sub_cancel,layout,List.append_assoc,List.take_left,decoded,
    Option.bind_eq_bind,Option.bind_some,allocated,foldl_turn behind (turns nonempty),← bytes,List.zipIdx_append,
    ← List.append_assoc]
  rfl

theorem Behind.le_clear_iff (behind : Behind) (block : Nat) :
    block ≤ behind.clear block ↔ behind = .unused ∨ 256 ∣ block := by
  cases behind with
  | unused => simp [Behind.clear]
  | ret =>
    simp only [Behind.clear,needCleared,needSize,reduceCtorEq,false_or]
    omega

structure Data where
  bytes : List UInt8
  nonempty : bytes ≠ []
  short : bytes.length < 2^30

namespace Data

def encoded (data : Data) : List UInt8 := base64Encode data.bytes data.bytes.length

def decoded (data : Data) (behind : Behind) (block : Nat) : Option Decoded :=
  base64Decode behind block data.encoded (cstr data.encoded).length

/-- What was encoded stands at the pointer returned, with a terminator, and all that is stored
fits the block. -/
def RoundTrip (data : Data) (behind : Behind) (block : Nat) : Prop :=
  ∃ decoded, data.decoded behind block = some decoded ∧
    (∀ i ≤ data.bytes.length, stored decoded.stores (decoded.ret+i) = (data.bytes ++ [0])[i]?) ∧
    ∀ store ∈ decoded.stores, block ≤ store.2 ∧ store.2 < block+decoded.retLen

theorem decoded_eq (data : Data) (behind : Behind) (block : Nat) : data.decoded behind block =
    some ⟨data.bytes.length+surplus data.bytes+4,behind.clear block,
      (List.replicate (data.bytes.length+surplus data.bytes+4) 0).zipIdx block ++
        (data.bytes ++ List.replicate (surplus data.bytes) 0 ++ [0]).zipIdx block⟩ := by
  have text : cstr data.encoded = Rfc4648.encode data.bytes := by
    rw [encoded,cstr,base64Encode_text,List.take_length]
  obtain ⟨rest,memory,-⟩ := Memory.text_split 0 data.encoded
  rw [show Memory.text 0 data.encoded = cstr data.encoded from rfl,text,Rfc4648.encode] at memory
  rw [decoded,text,Rfc4648.encode,List.length_append,List.length_replicate]
  exact base64Decode_characters behind block data.nonempty rfl memory

theorem RoundTrip.kept {data : Data} {behind : Behind} {block : Nat} (trip : data.RoundTrip behind block) :
    block ≤ behind.clear block := by
  obtain ⟨decoded,run,text,-⟩ := trip
  rw [decoded_eq] at run
  obtain rfl := Option.some.inj run
  have first := text 0 (Nat.zero_le _)
  rw [stored_append,stored_zipIdx,stored_zipIdx] at first
  by_contra below
  rw [Nat.add_zero,if_neg below,if_neg below] at first
  simp at first

/-- The round trip works just when what `memset` clears behind `need` is of no use, or is the
lowest byte of `ret` and zero before. -/
theorem base64_round_trip_iff (data : Data) (behind : Behind) (block : Nat) :
    data.RoundTrip behind block ↔ behind = .unused ∨ 256 ∣ block := by
  rw [← Behind.le_clear_iff]
  refine ⟨RoundTrip.kept,?_⟩
  intro kept
  have same : behind.clear block = block := by
    refine Nat.le_antisymm ?_ kept
    cases behind with
    | unused => exact Nat.le_refl _
    | ret => exact Nat.sub_le _ _
  refine ⟨_,data.decoded_eq behind block,?_,?_⟩
  · intro i bound
    have front : data.bytes ++ List.replicate (surplus data.bytes) 0 ++ [0] =
        (data.bytes ++ [0]) ++ List.replicate (surplus data.bytes) 0 := by
      rw [List.append_assoc,List.append_assoc,← List.replicate_succ',List.replicate_succ]
      rfl
    have inside : i < (data.bytes ++ [0]).length := by
      rw [List.length_append,List.length_singleton]
      exact Nat.lt_succ_of_le bound
    rw [stored_append,stored_zipIdx,same,if_pos (Nat.le_add_right _ _),Nat.add_sub_cancel_left,front,
      List.getElem?_append_left inside,List.getElem?_eq_getElem inside,Option.some_or]
  · rintro ⟨byte,place⟩ member
    obtain cleared | text := List.mem_append.mp member
    · obtain ⟨least,most,-⟩ := List.mem_zipIdx cleared
      rw [List.length_replicate] at most
      exact ⟨least,most⟩
    · obtain ⟨least,most,-⟩ := List.mem_zipIdx text
      simp only [List.length_append,List.length_replicate,List.length_singleton] at most ⊢
      omega

/-- The letter f, in a block whose address does not end in a zero byte. -/
theorem base64_round_trip_moved : ¬∀ (data : Data) (behind : Behind) (block : Nat), data.RoundTrip behind block := by
  intro always
  have kept := (always ⟨[102],nofun,by decide⟩ .ret 0x5555555592a0).kept
  exact absurd kept (by decide)

end Data

end Libsme.Websocket
