import Libsme.Library.CString
import Libsme.Websocket.Server

/-! The heart rate samples that accepted_func sends: the buffer of create_heart_data, the
windows of 100 samples in it, and the text that a browser splits into two-digit fields. -/
namespace Libsme.Websocket
open Semantics
open Memory (overwrite)

def heartTestData : List Nat := [50,60,70,80,90,80,70,60,55,50]

/-- The ten bytes from index `30*group` on; each draws once from rand. -/
def heartGroup (rand : Nat → Nat) (group : Nat) : List UInt8 :=
  heartTestData.mapIdx fun k base => UInt8.ofNat (base + rand (10*group+k)%10 + 1)

/-- The loop of create_heart_data, whose 134 turns start at 0, 30 and so on up to 3990. -/
def heartBuffer (rand : Nat → Nat) (turns : Nat) : List UInt8 :=
  (List.range turns).foldl (fun buf group => overwrite buf (30*group) (heartGroup rand group)) (List.replicate 4000 50)

def createHeartData (rand : Nat → Nat) : List UInt8 := heartBuffer rand 134

/-- What a run finds: the draws of rand, where the pointer points that create_heart_data
leaves, which has no return statement, counted from its buffer, and the memory around. -/
structure HeartSource where
  rand : Nat → Nat
  handle : Int
  around : Int → UInt8

def HeartSource.byte (source : HeartSource) (place : Int) : UInt8 :=
  if 0 ≤ place ∧ place < 4000 then (createHeartData source.rand).getD place.toNat 0 else source.around place

/-- heart_test_data_off += 5, and back to 0 from 3900 on. -/
def nextOffset (offset : Nat) : Nat := if 3900 ≤ offset+5 then 0 else offset+5

def offsetAfter : Nat → Nat
  | 0 => 0
  | turns+1 => nextOffset (offsetAfter turns)

def HeartSource.samples (source : HeartSource) (turns : Nat) : List UInt8 :=
  (List.range 100).map fun i => source.byte (source.handle + (i + offsetAfter turns : Nat))

/-- The variables that accepted_func prints before the samples. -/
structure HeartHeader where
  temperate : UInt16
  walk : Int32
  sleepCnt : UInt16

def HeartSource.heart (source : HeartSource) (turns : Nat) (header : HeartHeader) : Heart where
  temperate := header.temperate
  walk := header.walk
  sleepCnt := header.sleepCnt
  samples := source.samples turns
  count := by simp [HeartSource.samples]

/-- The text after the first line, in fields of two decimal digits. -/
def decodeFields : List UInt8 → Option (List Nat)
  | [] => some []
  | tens::ones::rest =>
    if 48 ≤ tens ∧ tens ≤ 57 ∧ 48 ≤ ones ∧ ones ≤ 57 then
      (decodeFields rest).map fun values => (10*(tens.toNat-48) + (ones.toNat-48))::values
    else none
  | [_] => none

def decodeHeart (text : List UInt8) : Option (List Nat) := decodeFields ((text.dropWhile (· ≠ 10)).drop 1)

structure Decodable (source : HeartSource) (turns : Nat) : Prop where
  inside : 0 ≤ source.handle + offsetAfter turns ∧ source.handle + offsetAfter turns + 100 ≤ 4000
  twoDigits : ∀ sample ∈ source.samples turns, (decimal 2 sample.toNat).length = 2
  decodes : ∀ header, decodeHeart (source.heart turns header).print = some ((source.samples turns).map UInt8.toNat)

/-- The pointer is that of the buffer, or so little behind it that the windows stay inside,
and no fifth draw of a group in the windows is a 9. -/
structure HeartFits (source : HeartSource) : Prop where
  least : 0 ≤ source.handle
  most : source.handle ≤ 5
  draws : ∀ group : Nat, group < 134 → source.handle ≤ (30*group+4 : Nat) → source.rand (10*group+4)%10 ≠ 9

theorem decimal_two : ∀ sample < 100, decimal 2 (sample : Nat) = [UInt8.ofNat (48+sample/10),UInt8.ofNat (48+sample%10)] := by
  decide +kernel

theorem decimal_three : ∀ sample < 256, 100 ≤ sample → (decimal 2 (sample : Nat)).length = 3 := by
  decide +kernel

theorem twoDigits_iff (sample : UInt8) : (decimal 2 sample.toNat).length = 2 ↔ sample.toNat < 100 := by
  constructor
  · intro two
    by_contra large
    have three := decimal_three sample.toNat sample.toNat_lt (Nat.not_lt.mp large)
    omega
  · intro small
    rw [decimal_two sample.toNat small]
    rfl

theorem decodeFields_samples {samples : List UInt8} (small : ∀ sample ∈ samples, sample.toNat < 100) :
    decodeFields (samples.flatMap fun sample => decimal 2 sample.toNat) = some (samples.map UInt8.toNat) := by
  induction samples with
  | nil => rfl
  | cons sample rest ih =>
    have here := small sample List.mem_cons_self
    have digits : ∀ n < 100, 48 ≤ UInt8.ofNat (48+n/10) ∧ UInt8.ofNat (48+n/10) ≤ 57 ∧
        48 ≤ UInt8.ofNat (48+n%10) ∧ UInt8.ofNat (48+n%10) ≤ 57 ∧
        10*((UInt8.ofNat (48+n/10)).toNat-48) + ((UInt8.ofNat (48+n%10)).toNat-48) = n := by decide +kernel
    obtain ⟨a,b,c,d,value⟩ := digits sample.toNat here
    rw [List.flatMap_cons,decimal_two sample.toNat here,List.cons_append,List.cons_append,List.nil_append,
      decodeFields,if_pos ⟨a,b,c,d⟩,value,ih fun other member => small other (List.mem_cons_of_mem _ member)]
    rfl

theorem newline_not_mem_decimal (width : Nat) (number : Int) : (10 : UInt8) ∉ decimal width number := by
  have absent : (10 : UInt8) ∉ (Nat.toDigits 10 number.natAbs).map fun c => UInt8.ofNat c.toNat := fun member =>
    absurd (CString.printed_digit member).1 (by decide)
  unfold decimal
  split
  · simp [absent]
  · simp [absent]

theorem decodeHeart_print (heart : Heart) : decodeHeart heart.print =
    decodeFields (heart.samples.flatMap fun sample => decimal 2 sample.toNat) := by
  obtain ⟨header,absent,split⟩ : ∃ header, (10 : UInt8) ∉ header ∧ heart.print =
      header ++ 10::heart.samples.flatMap fun sample => decimal 2 sample.toNat := by
    refine ⟨decimal 4 (heart.temperate >>> 8).toNat ++ Rfc4648.ascii "," ++ decimal 4 heart.walk.toInt ++
      Rfc4648.ascii "," ++ decimal 4 heart.walk.toInt ++ Rfc4648.ascii "," ++ decimal 4 heart.sleepCnt.toNat ++
      Rfc4648.ascii "," ++ decimal 4 heart.sleepCnt.toNat ++ [32],?_,?_⟩
    · have comma : (10 : UInt8) ∉ Rfc4648.ascii "," := by decide
      simp [newline_not_mem_decimal,comma]
    · have line : Rfc4648.ascii " \n" = [32] ++ [10] := rfl
      simp only [Heart.print,line,List.append_assoc,List.cons_append,List.nil_append]
  have skipped : (header ++ 10::heart.samples.flatMap fun sample => decimal 2 sample.toNat).dropWhile (· ≠ 10) =
      10::heart.samples.flatMap fun sample => decimal 2 sample.toNat := by
    rw [List.dropWhile_append_of_pos]
    · simp
    · intro cell member
      simpa using fun same : cell = 10 => absent (same ▸ member)
  rw [decodeHeart,split,skipped]
  rfl

theorem heartGroup_length (rand : Nat → Nat) (group : Nat) : (heartGroup rand group).length = 10 := by
  simp [heartGroup,heartTestData]

theorem heartGroup_getD (rand : Nat → Nat) (group k : Nat) (inside : k < 10) :
    ((heartGroup rand group).getD k 0).toNat = heartTestData.getD k 0 + rand (10*group+k)%10 + 1 := by
  have draw : rand (10*group+k)%10 < 10 := Nat.mod_lt _ (by decide)
  have table : ∀ k < 10, heartTestData.getD k 0 ≤ 90 := by decide
  have bound := table k inside
  have base : heartTestData[k]? = some (heartTestData.getD k 0) := by
    rw [List.getD_eq_getElem?_getD,List.getElem?_eq_getElem inside]
    rfl
  rw [heartGroup,List.getD_eq_getElem?_getD,List.getElem?_mapIdx,base]
  simp only [Option.map_some,Option.getD_some]
  have size : UInt8.size = 256 := rfl
  exact UInt8.toNat_ofNat_of_lt' (by omega)

theorem heartBuffer_bytes (rand : Nat → Nat) (turns : Nat) (inside : turns ≤ 134) :
    (heartBuffer rand turns).length = 4000 ∧ ∀ i < 4000, (heartBuffer rand turns).getD i 0 =
      if i/30 < turns ∧ i%30 < 10 then (heartGroup rand (i/30)).getD (i%30) 0 else 50 := by
  induction turns with
  | zero =>
    refine ⟨List.length_replicate,?_⟩
    intro i bound
    change (List.replicate 4000 50).getD i 0 = _
    rw [List.getD_eq_getElem?_getD,List.getElem?_replicate,if_pos bound,if_neg (by omega)]
    rfl
  | succ turns ih =>
    obtain ⟨size,bytes⟩ := ih (Nat.le_of_succ_le inside)
    have next : heartBuffer rand (turns+1) = overwrite (heartBuffer rand turns) (30*turns) (heartGroup rand turns) := by
      rw [heartBuffer,List.range_succ,List.foldl_append]
      rfl
    have room : 30*turns+(heartGroup rand turns).length ≤ (heartBuffer rand turns).length := by
      rw [heartGroup_length,size]
      omega
    rw [next]
    refine ⟨by rw [Memory.overwrite_length _ _ _ room,size],?_⟩
    intro i bound
    rw [Memory.overwrite_getD _ _ room,heartGroup_length]
    by_cases here : 30*turns ≤ i ∧ i < 30*turns+10
    · have group : i/30 = turns := by omega
      have place : i%30 = i-30*turns := by omega
      rw [if_pos here,if_pos (by omega),group,place]
    · rw [if_neg here,bytes i bound]
      by_cases written : i/30 < turns ∧ i%30 < 10
      · rw [if_pos written,if_pos (by omega)]
      · rw [if_neg written,if_neg (by omega)]

/-- Only the fifth byte of a group can take three digits. -/
theorem createHeartData_small_iff (rand : Nat → Nat) (i : Nat) (inside : i < 4000) :
    ((createHeartData rand).getD i 0).toNat < 100 ↔ (i%30 = 4 → rand (10*(i/30)+4)%10 ≠ 9) := by
  rw [createHeartData,(heartBuffer_bytes rand 134 (Nat.le_refl _)).2 i inside]
  by_cases written : i%30 < 10
  · have table : ∀ k < 10, k = 4 ∧ heartTestData.getD k 0 = 90 ∨ k ≠ 4 ∧ heartTestData.getD k 0 ≤ 80 := by decide
    have draw : rand (10*(i/30)+i%30)%10 < 10 := Nat.mod_lt _ (by decide)
    rw [if_pos ⟨by omega,written⟩,heartGroup_getD _ _ _ written]
    rcases table (i%30) written with ⟨fifth,base⟩ | ⟨other,base⟩
    · rw [fifth] at base draw ⊢
      omega
    · omega
  · rw [if_neg (by omega)]
    exact iff_of_true (by decide) (by omega)

theorem offsetAfter_eq (turns : Nat) : offsetAfter turns = 5*(turns%780) := by
  induction turns with
  | zero => rfl
  | succ turns ih =>
    rw [offsetAfter,ih,nextOffset]
    split <;> omega

theorem mem_samples {source : HeartSource} {turns : Nat} {sample : UInt8} :
    sample ∈ source.samples turns ↔ ∃ i < 100, source.byte (source.handle + (i + offsetAfter turns : Nat)) = sample := by
  simp [HeartSource.samples]

theorem byte_inside (source : HeartSource) {place : Nat} (inside : place < 4000) :
    source.byte place = (createHeartData source.rand).getD place 0 := by
  rw [HeartSource.byte,if_pos (by omega),Int.toNat_natCast]

theorem fits_of_decodable {source : HeartSource} (always : ∀ turns, Decodable source turns) : HeartFits source := by
  have first := (always 0).inside
  have last := (always 779).inside
  rw [offsetAfter_eq] at first last
  refine ⟨by omega,by omega,?_⟩
  intro group inside behind
  -- the window of this turn has the fifth byte of the group
  obtain ⟨turns,i,window,place⟩ : ∃ turns i : Nat, i < 100 ∧
      source.handle + (i + offsetAfter turns : Nat) = (30*group+4 : Nat) := by
    obtain ⟨ahead,same⟩ := Int.eq_ofNat_of_zero_le (Int.sub_nonneg.mpr behind)
    refine ⟨min (ahead/5) 779,ahead-5*min (ahead/5) 779,?_,?_⟩
    · omega
    · rw [offsetAfter_eq]
      omega
  have two := (always turns).twoDigits _ (mem_samples.mpr ⟨i,window,rfl⟩)
  rw [twoDigits_iff,place,byte_inside source (by omega),createHeartData_small_iff _ _ (by omega)] at two
  have fifth : (30*group+4)%30 = 4 := by omega
  have draw := two fifth
  have number : (30*group+4)/30 = group := by omega
  rwa [number] at draw

theorem decodable_of_fits {source : HeartSource} (fits : HeartFits source) (turns : Nat) : Decodable source turns := by
  obtain ⟨least,most,draws⟩ := fits
  have window : offsetAfter turns ≤ 3895 := by
    rw [offsetAfter_eq]
    omega
  have small : ∀ sample ∈ source.samples turns, sample.toNat < 100 := by
    intro sample member
    obtain ⟨i,bound,rfl⟩ := mem_samples.mp member
    obtain ⟨place,same⟩ := Int.eq_ofNat_of_zero_le (by omega : 0 ≤ source.handle + (i + offsetAfter turns : Nat))
    rw [same]
    have inside : place < 4000 := by omega
    rw [byte_inside source inside,createHeartData_small_iff _ _ inside]
    intro fifth
    exact draws (place/30) (by omega) (by omega)
  refine ⟨by omega,?_,?_⟩
  · intro sample member
    exact (twoDigits_iff sample).mpr (small sample member)
  · intro header
    rw [decodeHeart_print]
    exact decodeFields_samples small

/-- The samples stay decodable in every turn just when pointer and draws fit. -/
theorem heartData_decodable_iff (source : HeartSource) : (∀ turns, Decodable source turns) ↔ HeartFits source :=
  ⟨fits_of_decodable,decodable_of_fits⟩

def highDraws : HeartSource := ⟨fun _ => 9,0,fun _ => 50⟩

theorem heartData_highDraws : ¬∀ source turns, Decodable source turns := by
  intro always
  have fits := fits_of_decodable (always highDraws)
  exact fits.draws 0 (by decide) (by decide) rfl

end Libsme.Websocket
