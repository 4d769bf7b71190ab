import Mathlib.Algebra.BigOperators.Group.Finset.Piecewise
import Mathlib.Data.Fintype.Defs

/-! Interleavings of the sequences of several sources: each item of the merged sequence
comes from one source, and each source's items keep their order. -/
namespace Libsme.Interleaving

variable {ι α : Type} [DecidableEq ι]

/-- The items of one source in a sequence of items with their sources. -/
def share (source : ι) (tagged : List (ι × α)) : List α :=
  (tagged.filter fun item => item.1 = source).map Prod.snd

def Interleaved (sources : ι → List α) (merged : List α) : Prop :=
  ∃ tagged : List (ι × α), tagged.map Prod.snd = merged ∧ ∀ source, share source tagged = sources source

theorem interleaved_empty : Interleaved (fun _ : ι => ([] : List α)) [] := ⟨[],rfl,fun _ => rfl⟩

theorem share_append (source : ι) (first second : List (ι × α)) :
    share source (first ++ second) = share source first ++ share source second := by
  simp [share]

theorem share_block (source other : ι) (block : List α) :
    share source (block.map (Prod.mk other)) = if other = source then block else [] := by
  by_cases same : other = source <;> simp [share,List.filter_map,Function.comp_def,same]

theorem Interleaved.send {sources : ι → List α} {merged : List α} (interleaved : Interleaved sources merged)
    (source : ι) (block : List α) :
    Interleaved (Function.update sources source (sources source ++ block)) (merged ++ block) := by
  obtain ⟨tagged,rfl,each⟩ := interleaved
  refine ⟨tagged ++ block.map (Prod.mk source),by simp,?_⟩
  intro other
  rw [share_append,share_block,each]
  by_cases same : source = other
  · subst same
    rw [if_pos rfl,Function.update_self]
  · rw [if_neg same,List.append_nil,Function.update_of_ne (Ne.symm same)]

/-- Nothing is lost, nothing comes twice. -/
theorem Interleaved.countP [Fintype ι] {sources : ι → List α} {merged : List α}
    (interleaved : Interleaved sources merged) (p : α → Bool) :
    merged.countP p = ∑ source, (sources source).countP p := by
  obtain ⟨tagged,rfl,each⟩ := interleaved
  simp only [← each]
  clear each
  induction tagged with
  | nil => simp [share]
  | cons item tagged ih =>
    have split : ∀ source, (share source (item::tagged)).countP p =
        (if item.1 = source then if p item.2 then 1 else 0 else 0) + (share source tagged).countP p := by
      intro source
      by_cases same : item.1 = source <;> simp [share,same,List.countP_cons,Nat.add_comm]
    simp only [split,Finset.sum_add_distrib,Finset.sum_ite_eq,Finset.mem_univ,if_true]
    rw [List.map_cons,List.countP_cons,ih,Nat.add_comm]

end Libsme.Interleaving
