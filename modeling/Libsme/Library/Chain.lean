import Mathlib.Logic.Function.Basic
import Mathlib.Data.List.Nodup

/-! Chains of pointers in a heap: from a node along the links through a list of nodes to the
node after them. A link stored outside a chain leaves it as it is. -/
namespace Libsme

variable {Ptr : Type}

def Chain (next : Ptr → Ptr) : Ptr → List Ptr → Ptr → Prop
  | first, [], last => first = last
  | first, node::rest, last => first = node ∧ Chain next (next node) rest last

namespace Chain
variable {next : Ptr → Ptr} {first last node target : Ptr} {nodes : List Ptr}

theorem congr {other : Ptr → Ptr} (same : ∀ node ∈ nodes, other node = next node) :
    Chain other first nodes last ↔ Chain next first nodes last := by
  induction nodes generalizing first with
  | nil => exact Iff.rfl
  | cons node rest ih =>
    have here := same node List.mem_cons_self
    have later : Chain other (next node) rest last ↔ Chain next (next node) rest last :=
      ih fun other member => same other (List.mem_cons_of_mem _ member)
    simp only [Chain,here,later]

theorem update [DecidableEq Ptr] (outside : node ∉ nodes) :
    Chain (Function.update next node target) first nodes last ↔ Chain next first nodes last := by
  apply congr
  intro other member
  exact Function.update_of_ne (fun same : other = node => outside (same ▸ member)) _ _

theorem first_mem (chain : Chain next first nodes last) (nonempty : nodes ≠ []) : first ∈ nodes := by
  cases nodes with
  | nil => exact absurd rfl nonempty
  | cons node rest => exact chain.1 ▸ List.mem_cons_self

theorem next_ne (chain : Chain next first (node::nodes) last) (distinct : (node::nodes).Nodup)
    (ends : last ≠ node) : next node ≠ node := by
  obtain ⟨_,rest⟩ := chain
  cases nodes with
  | nil => exact rest ▸ ends
  | cons second nodes =>
    intro same
    have member : next node ∈ second::nodes := rest.first_mem (List.cons_ne_nil _ _)
    exact (List.nodup_cons.mp distinct).1 (same ▸ member)

end Chain
end Libsme
