import Mathlib.Data.List.GetD
import Mathlib.Data.List.TakeDrop
import Mathlib.Algebra.Order.Group.Nat

/-! A stream rendered in blocks. A quota limits how much of the stream is taken; a block
holds whole frames, and what is missing from the last one is filled up. -/
namespace Libsme.Blocks
variable {α : Type}

/-- The whole frames among the first `quota` elements. -/
def content (frame quota : Nat) (stream : List α) : List α :=
  stream.take ((stream.take quota).length/frame*frame)

/-- A stream that ends before the quota ends in a block that is not full, an empty one perhaps. -/
def size (block quota : Nat) (stream : List α) : Nat :=
  if (stream.take quota).length = quota ∧ block ∣ quota then quota
  else ((stream.take quota).length/block+1)*block

def rendered (block frame quota : Nat) (filler : α) (stream : List α) : List α :=
  content frame quota stream ++
    List.replicate (size block quota stream-(content frame quota stream).length) filler

theorem content_length (frame quota : Nat) (stream : List α) :
    (content frame quota stream).length = (stream.take quota).length/frame*frame := by
  have whole := Nat.div_mul_le_self (stream.take quota).length frame
  rw [content,List.length_take]
  rw [List.length_take] at whole ⊢
  omega

theorem content_le_size {block : Nat} (frame quota : Nat) (positive : 0 < block) (stream : List α) :
    (content frame quota stream).length ≤ size block quota stream := by
  have whole := Nat.div_mul_le_self (stream.take quota).length frame
  rw [content_length]
  unfold size
  by_cases full : (stream.take quota).length = quota ∧ block ∣ quota
  · rw [if_pos full]
    omega
  · rw [if_neg full,Nat.add_mul,Nat.one_mul]
    have last : (stream.take quota).length < _ := Nat.lt_div_mul_add positive
    omega

theorem content_eq (frame quota : Nat) (stream : List α) : content frame quota stream =
    (stream.take quota).take ((stream.take quota).length/frame*frame) := by
  have whole := Nat.div_mul_le_self (stream.take quota).length frame
  have within : (stream.take quota).length ≤ quota := List.length_take_le _ _
  rw [content,List.take_take,Nat.min_eq_left (by omega)]

theorem take_short {block quota : Nat} {stream : List α} (short : (stream.take (min quota block)).length < block) :
    stream.take (min quota block) = stream.take quota := by
  rcases Nat.le_total quota block with first | longer
  · rw [Nat.min_eq_left first]
  · rw [Nat.min_eq_right longer,List.length_take] at *
    rw [List.take_of_length_le (by omega),List.take_of_length_le (by omega)]

theorem content_getD (frame quota : Nat) (stream : List α) (i : Nat) (filler : α) :
    (content frame quota stream).getD i filler =
      if i < (stream.take quota).length/frame*frame then stream.getD i filler else filler := by
  simp only [content,List.getD_eq_getElem?_getD,List.getElem?_take]
  split <;> rfl

theorem ceil_eq {block : Nat} (positive : 0 < block) (quota : Nat) :
    (quota+block-1)/block*block = if block ∣ quota then quota else (quota/block+1)*block := by
  by_cases divides : block ∣ quota
  · rw [if_pos divides]
    obtain ⟨count,rfl⟩ := divides
    have regroup : block*count+block-1 = block-1+block*count := by omega
    have small : (block-1)/block = 0 := Nat.div_eq_of_lt (by omega)
    rw [regroup,Nat.add_mul_div_left _ _ positive,small,Nat.zero_add,Nat.mul_comm]
  · have parts := Nat.div_add_mod quota block
    have bound := Nat.mod_lt quota positive
    have rest : 0 < quota%block := Nat.pos_of_ne_zero fun zero => divides (Nat.dvd_of_mod_eq_zero zero)
    have regroup : quota+block-1 = block*(quota/block)+(block+(quota%block-1)) := by omega
    have small : (quota%block-1)/block = 0 := Nat.div_eq_of_lt (by omega)
    rw [if_neg divides,regroup,Nat.mul_add_div positive,Nat.add_div_left _ positive,small]

/-- For a part of the stream only the quota may be too small. -/
theorem le_size_iff {block quota : Nat} (positive : 0 < block) {stream : List α} {length : Nat}
    (within : length ≤ stream.length) :
    length ≤ size block quota stream ↔ length ≤ (quota+block-1)/block*block := by
  rw [ceil_eq positive,size,List.length_take]
  rcases Nat.lt_or_ge stream.length quota with short | long
  · have ended : ¬(min quota stream.length = quota ∧ block ∣ quota) := by omega
    have last : stream.length < _ := Nat.lt_div_mul_add positive
    have longer : quota < _ := Nat.lt_div_mul_add positive
    rw [if_neg ended,Nat.min_eq_right (Nat.le_of_lt short),Nat.add_mul,Nat.one_mul,Nat.add_mul,Nat.one_mul]
    refine iff_of_true (by omega) ?_
    split <;> omega
  · rw [Nat.min_eq_left long]
    simp only [true_and]

section Rendering
variable {block frame : Nat} (filler : α)

theorem rendered_zero (stream : List α) : rendered block frame 0 filler stream = [] := by
  simp [rendered,content,size]

theorem rendered_block (divides : frame ∣ block) (positive : 0 < block) {quota : Nat} {stream : List α}
    (enough : block ≤ (stream.take quota).length) : rendered block frame quota filler stream =
      stream.take block ++ rendered block frame (quota-block) filler (stream.drop block) := by
  obtain ⟨frames,rfl⟩ := divides
  have frame_pos : 0 < frame := Nat.pos_of_mul_pos_right positive
  have bounds : frame*frames ≤ quota ∧ frame*frames ≤ stream.length := by
    rw [List.length_take] at enough
    omega
  have taken : (stream.take quota).length =
      frame*frames+((stream.drop (frame*frames)).take (quota-frame*frames)).length := by
    simp only [List.length_take,List.length_drop]
    omega
  have content_eq : content frame quota stream =
      stream.take (frame*frames) ++ content frame (quota-frame*frames) (stream.drop (frame*frames)) := by
    rw [content,content,← List.take_add,taken,Nat.mul_add_div frame_pos,Nat.add_mul,Nat.mul_comm frames]
  have size_eq : size (frame*frames) quota stream =
      frame*frames+size (frame*frames) (quota-frame*frames) (stream.drop (frame*frames)) := by
    have same : ((stream.take quota).length = quota ∧ frame*frames ∣ quota) ↔
        (((stream.drop (frame*frames)).take (quota-frame*frames)).length = quota-frame*frames ∧
          frame*frames ∣ quota-frame*frames) :=
      and_congr (by omega) (Nat.dvd_sub_iff_left bounds.left (Nat.dvd_refl _)).symm
    unfold size
    by_cases full : (stream.take quota).length = quota ∧ frame*frames ∣ quota
    · rw [if_pos full,if_pos (same.mp full),Nat.add_sub_cancel' bounds.left]
    · rw [if_neg full,if_neg (same.not.mp full),taken,Nat.add_comm (frame*frames),Nat.add_div_right _ positive,
        Nat.add_mul,Nat.one_mul,Nat.add_comm]
  rw [rendered,rendered,content_eq,size_eq,List.append_assoc,List.length_append,List.length_take,
    Nat.min_eq_left bounds.right,Nat.add_sub_add_left]

theorem rendered_last {quota : Nat} {stream : List α} (more : 0 < quota)
    (short : (stream.take quota).length < block) : rendered block frame quota filler stream =
      content frame quota stream ++ List.replicate (block-(content frame quota stream).length) filler := by
  have partial_block : size block quota stream = block := by
    rw [size,Nat.div_eq_of_lt short,Nat.zero_add,Nat.one_mul,if_neg]
    rintro ⟨full,divides⟩
    have fits := Nat.le_of_dvd more divides
    omega
  rw [rendered,partial_block]

end Rendering

section Filling
variable {filler : α}

theorem getD_filled (front : List α) (count i : Nat) :
    (front ++ List.replicate count filler).getD i filler = front.getD i filler := by
  rcases Nat.lt_or_ge i front.length with inside | after
  · exact List.getD_append _ _ _ _ inside
  · rw [List.getD_append_right _ _ _ _ after,List.getD_eq_default _ _ after]
    rcases Nat.lt_or_ge (i-front.length) count with filled | behind
    · exact List.getD_replicate _ filled
    · exact List.getD_eq_default _ _ (by simpa using behind)

theorem ext_getD {left right : List α} (length : left.length = right.length)
    (same : ∀ i, left.getD i filler = right.getD i filler) : left = right := by
  apply List.ext_getElem length
  intro i inside inside'
  rw [← List.getD_eq_getElem left filler inside,← List.getD_eq_getElem right filler inside']
  exact same i

/-- Two lists that go on with the same filler agree where it stands for what is missing. -/
theorem filled_iff {front data : List α} {count : Nat} :
    (∃ more, front ++ List.replicate count filler = data ++ List.replicate more filler) ↔
      data.length ≤ front.length+count ∧ ∀ i, data.getD i filler = front.getD i filler := by
  constructor
  · rintro ⟨more,equal⟩
    have lengths := congrArg List.length equal
    simp only [List.length_append,List.length_replicate] at lengths
    refine ⟨by omega,fun i => ?_⟩
    rw [← getD_filled data more,← equal,getD_filled]
  · rintro ⟨fits,same⟩
    refine ⟨front.length+count-data.length,@ext_getD _ filler _ _ ?_ fun i => ?_⟩
    · simp only [List.length_append,List.length_replicate]
      omega
    · rw [getD_filled,getD_filled,same]

end Filling
end Libsme.Blocks
