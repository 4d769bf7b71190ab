import Mathlib.Logic.Function.Basic
import Mathlib.Data.List.Nodup

/-! Circular lists of nodes linked both ways, with a head that is no element. A segment runs
from a node along the links to the node after its elements; a circle is a segment from the
head back to it. -/
namespace Libsme

variable {Ptr : Type}

structure Links (Ptr : Type) where
  next : Ptr → Ptr
  prev : Ptr → Ptr

namespace Links

def Segment (links : Links Ptr) : Ptr → List Ptr → Ptr → Prop
  | first, [], last => links.next first = last ∧ links.prev last = first
  | first, node::nodes, last =>
    links.next first = node ∧ links.prev node = first ∧ Segment links node nodes last

structure Circle (links : Links Ptr) (head : Ptr) (nodes : List Ptr) : Prop where
  distinct : (head::nodes).Nodup
  closed : links.Segment head nodes head

section Segments
variable {links other : Links Ptr} {head first last node : Ptr} {nodes before after : List Ptr}

theorem Segment.congr (next : ∀ node ∈ first::nodes, other.next node = links.next node)
    (prev : ∀ node ∈ nodes ++ [last], other.prev node = links.prev node)
    (segment : links.Segment first nodes last) : other.Segment first nodes last := by
  induction nodes generalizing first with
  | nil => exact ⟨(next first List.mem_cons_self).trans segment.1,(prev last (by simp)).trans segment.2⟩
  | cons node nodes ih =>
    obtain ⟨forth,back,rest⟩ := segment
    have here := next first List.mem_cons_self
    have there := prev node List.mem_cons_self
    refine ⟨here.trans forth,there.trans back,ih ?_ ?_ rest⟩
    · exact fun node member => next node (List.mem_cons_of_mem first member)
    · exact fun other member => prev other (List.mem_cons_of_mem node member)

theorem segment_append : links.Segment first (before ++ node::after) last ↔
    links.Segment first before node ∧ links.Segment node after last := by
  induction before generalizing first with
  | nil => simp [Segment,and_assoc]
  | cons start before ih => simp [Segment,ih,and_assoc]

theorem Segment.next_mem (segment : links.Segment first nodes last) (member : node ∈ first::nodes) :
    links.next node ∈ nodes ++ [last] := by
  induction nodes generalizing first with
  | nil =>
    rw [List.mem_singleton.mp member,segment.1]
    exact List.mem_singleton_self last
  | cons second nodes ih =>
    obtain ⟨forth,_,rest⟩ := segment
    rcases List.mem_cons.mp member with rfl | later
    · exact forth ▸ List.mem_cons_self
    · exact List.mem_cons_of_mem second (ih rest later)

theorem Segment.prev_mem (segment : links.Segment first nodes last) (member : node ∈ nodes ++ [last]) :
    links.prev node ∈ first::nodes := by
  induction nodes generalizing first with
  | nil =>
    rw [List.mem_singleton.mp member,segment.2]
    exact List.mem_singleton_self first
  | cons second nodes ih =>
    obtain ⟨_,back,rest⟩ := segment
    rcases List.mem_cons.mp member with rfl | later
    · exact back ▸ List.mem_cons_self
    · exact List.mem_cons_of_mem first (ih rest later)

theorem Circle.next_mem (circle : links.Circle head nodes) (member : node ∈ head::nodes) :
    links.next node ∈ head::nodes := by
  have after := circle.closed.next_mem member
  simpa [or_comm] using after

theorem Circle.prev_mem (circle : links.Circle head nodes) (member : node ∈ head::nodes) :
    links.prev node ∈ head::nodes := circle.closed.prev_mem (by simpa [or_comm] using member)

theorem Circle.next_head (circle : links.Circle head nodes) : links.next head = nodes.headD head := by
  cases nodes with
  | nil => exact circle.closed.1
  | cons node nodes => exact circle.closed.1

theorem Segment.unique {others : List Ptr} (segment : links.Segment first nodes last) (ends : last ∉ nodes)
    (again : links.Segment first others last) (other_ends : last ∉ others) : nodes = others := by
  induction nodes generalizing first others with
  | nil =>
    cases others with
    | nil => rfl
    | cons other others => exact absurd (segment.1.symm.trans again.1 ▸ List.mem_cons_self) other_ends
  | cons node nodes ih =>
    cases others with
    | nil => exact absurd (again.1.symm.trans segment.1 ▸ List.mem_cons_self) ends
    | cons other others =>
      obtain rfl : node = other := segment.1.symm.trans again.1
      have later := ih segment.2.2 (fun member => ends (List.mem_cons_of_mem node member)) again.2.2
        (fun member => other_ends (List.mem_cons_of_mem node member))
      rw [later]

theorem Circle.unique {others : List Ptr} (circle : links.Circle head nodes) (again : links.Circle head others) :
    nodes = others :=
  circle.closed.unique (List.nodup_cons.mp circle.distinct).1 again.closed (List.nodup_cons.mp again.distinct).1

end Segments

variable [DecidableEq Ptr]

def setNext (links : Links Ptr) (node target : Ptr) : Links Ptr :=
  { links with next := Function.update links.next node target }

def setPrev (links : Links Ptr) (node target : Ptr) : Links Ptr :=
  { links with prev := Function.update links.prev node target }

/-- The node goes in before the head. -/
def enqueue (links : Links Ptr) (head node : Ptr) : Links Ptr :=
  let links := links.setNext node head
  let links := links.setPrev node (links.prev head)
  let links := links.setNext (links.prev node) node
  links.setPrev head node

/-- The neighbours of the node close up. -/
def bypass (links : Links Ptr) (node : Ptr) : Links Ptr :=
  let links := links.setNext (links.prev node) (links.next node)
  links.setPrev (links.next node) (links.prev node)

/-- The node after the head leaves. -/
def behead (links : Links Ptr) (head : Ptr) : Links Ptr :=
  let node := links.next head
  let links := links.setNext head (links.next node)
  links.setPrev (links.next head) head

def clear (links : Links Ptr) (node null : Ptr) : Links Ptr := (links.setNext node null).setPrev node null

section Stores
variable {links : Links Ptr} {head first last node target null : Ptr} {nodes before after : List Ptr}

theorem Segment.redirect (segment : links.Segment first nodes last) (distinct : (first::nodes).Nodup)
    (outside : target ∉ nodes) :
    ((links.setNext (links.prev last) target).setPrev target (links.prev last)).Segment first nodes target := by
  induction nodes generalizing first with
  | nil =>
    obtain ⟨_,back⟩ := segment
    simp [Segment,setNext,setPrev,back]
  | cons node nodes ih =>
    obtain ⟨forth,back,rest⟩ := segment
    obtain ⟨fresh,distinct⟩ := List.nodup_cons.mp distinct
    have other : node ≠ target := fun same => outside (same ▸ List.mem_cons_self)
    have outside : target ∉ nodes := fun member => outside (List.mem_cons_of_mem node member)
    have unchanged : first ≠ links.prev last := fun same => fresh (same ▸ rest.prev_mem (by simp))
    refine ⟨?_,?_,ih rest distinct outside⟩
    · exact (Function.update_of_ne unchanged _ _).trans forth
    · exact (Function.update_of_ne other _ _).trans back

theorem Segment.clear (segment : links.Segment first nodes last) (outside : node ∉ first::nodes)
    (ends : last ≠ node) : (links.clear node null).Segment first nodes last := by
  apply segment.congr
  · exact fun other member => Function.update_of_ne (fun same : other = node => outside (same ▸ member)) _ _
  · intro other member
    refine Function.update_of_ne (fun same : other = node => ?_) _ _
    rcases List.mem_append.mp member with inside | final
    · exact outside (List.mem_cons_of_mem first (same ▸ inside))
    · exact ends ((List.mem_singleton.mp final).symm.trans same)

theorem Circle.enqueue (circle : links.Circle head nodes) (outside : node ∉ head::nodes) :
    (links.enqueue head node).Circle head (nodes ++ [node]) := by
  have apart : node ≠ head := fun same => outside (same ▸ List.mem_cons_self)
  have fresh : node ∉ nodes := fun member => outside (List.mem_cons_of_mem head member)
  have end_other : links.prev head ≠ node := fun same => outside (same ▸ circle.prev_mem List.mem_cons_self)
  obtain ⟨distinct,closed⟩ := circle
  refine ⟨?_,segment_append.mpr ⟨?_,?_⟩⟩
  · rw [← List.cons_append,← List.concat_eq_append]
    exact distinct.concat outside
  · -- up to the node: the old end redirected; its own links are not on the way
    apply (closed.redirect distinct fresh).congr
    · intro other member
      have unlike : other ≠ node := fun same => outside (same ▸ member)
      by_cases ends : other = links.prev head
      · simp [Links.enqueue,setNext,setPrev,ends]
      · simp [Links.enqueue,setNext,setPrev,ends,unlike]
    · intro other member
      by_cases same : other = node
      · simp [Links.enqueue,setNext,setPrev,apart,same]
      · have inside : other ∈ nodes := by simpa [same] using member
        have unlike : other ≠ head := fun same => (List.nodup_cons.mp distinct).1 (same ▸ inside)
        simp [Links.enqueue,setNext,setPrev,same,unlike]
  · refine ⟨?_,?_⟩
    · simp [Links.enqueue,setNext,setPrev,end_other.symm]
    · simp [Links.enqueue,setNext,setPrev]

theorem Circle.behead (circle : links.Circle head (node::nodes)) : links.behead head = links.bypass node := by
  obtain ⟨distinct,forth,back,_⟩ := circle
  have apart : node ≠ head := fun same => (List.nodup_cons.mp distinct).1 (same ▸ List.mem_cons_self)
  simp [Links.behead,Links.bypass,setNext,setPrev,forth,back,apart]

/-- A node taken out of its place, whatever is before and after it. -/
theorem Circle.bypass (circle : links.Circle head (before ++ node::after)) :
    ((links.bypass node).clear node null).Circle head (before ++ after) := by
  obtain ⟨distinct,closed⟩ := circle
  obtain ⟨to_node,from_node⟩ := segment_append.mp closed
  have all := distinct
  rw [← List.cons_append,List.nodup_append] at all
  obtain ⟨left,right,disjoint⟩ := all
  obtain ⟨fresh,tail⟩ := List.nodup_cons.mp right
  have not_left : node ∉ head::before := fun member => disjoint node member node List.mem_cons_self rfl
  have apart : head ≠ node := fun same => not_left (same ▸ List.mem_cons_self)
  have previous : links.prev node ∈ head::before := to_node.prev_mem (by simp)
  refine ⟨?_,?_⟩
  · rw [← List.cons_append,List.nodup_append]
    exact ⟨left,tail,fun one member other later => disjoint one member other (List.mem_cons_of_mem node later)⟩
  have bypassed : links.bypass node =
      (links.setNext (links.prev node) (links.next node)).setPrev (links.next node) (links.prev node) := by
    have self : node ≠ links.prev node := fun same => not_left (same ▸ previous)
    simp [Links.bypass,setNext,setPrev,self]
  cases after with
  | nil =>
    have target : links.next node = head := from_node.1
    rw [bypassed,target,List.append_nil]
    have outside : head ∉ before := (List.nodup_cons.mp left).1
    exact (to_node.redirect left outside).clear not_left apart
  | cons target after =>
    obtain ⟨forth,_,rest⟩ := from_node
    have outside : target ∉ head::before := fun member => disjoint target member target (by simp) rfl
    have joined := to_node.redirect left fun member => outside (List.mem_cons_of_mem head member)
    rw [bypassed,forth]
    refine segment_append.mpr ⟨joined.clear not_left ?_,?_⟩
    · exact fun same => fresh (same ▸ List.mem_cons_self)
    · apply Segment.clear ?_ fresh apart
      apply rest.congr
      · intro other member
        have unlike : other ≠ links.prev node := fun same =>
          disjoint other (same ▸ previous) other (List.mem_cons_of_mem node member) rfl
        simp [setNext,setPrev,unlike]
      · intro other member
        have unlike : other ≠ target := by
          rintro rfl
          rcases List.mem_append.mp member with inside | final
          · exact (List.nodup_cons.mp tail).1 inside
          · exact outside (List.mem_singleton.mp final ▸ List.mem_cons_self)
        simp [setNext,setPrev,unlike]

theorem Circle.remove (circle : links.Circle head nodes) (member : node ∈ nodes) :
    ((links.bypass node).clear node null).Circle head (nodes.erase node) := by
  obtain ⟨before,after,fresh,split,erased⟩ := List.exists_erase_eq member
  rw [erased]
  rw [split] at circle
  exact circle.bypass

theorem Circle.clear (circle : links.Circle head nodes) (outside : node ∉ head::nodes) :
    (links.clear node null).Circle head nodes :=
  ⟨circle.distinct,circle.closed.clear outside fun same => outside (same ▸ List.mem_cons_self)⟩

end Stores
end Links
end Libsme
