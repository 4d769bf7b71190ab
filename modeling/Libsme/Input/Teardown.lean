import Libsme.Library.Chain
import Libsme.Library.Traced
import Libsme.Semantics.Rfc4648

/-! The circular list of insock_data in input_server.cpp. Both teardown loops free the node
that their own end test compares with. -/
namespace Libsme.Input
open Semantics.Rfc4648 (ascii)

variable {Ptr : Type}

/-- The pointers that malloc gives, and what the `next` of a node holds once it is freed. -/
structure Malloc (Ptr : Type) where
  null : Ptr
  head : Ptr
  node : Nat → Ptr
  stale : Ptr → Ptr
  distinct : Function.Injective node
  apart : ∀ i, node i ≠ head

namespace Teardown

def ringNodes (malloc : Malloc Ptr) (count : Nat) : List Ptr := ((List.range count).map malloc.node).reverse

section Nodes
variable {malloc : Malloc Ptr} {count : Nat}

theorem ringNodes_succ : ringNodes malloc (count+1) = malloc.node count::ringNodes malloc count := by
  simp [ringNodes,List.range_succ]

theorem node_not_mem : malloc.node count ∉ ringNodes malloc count := by
  intro member
  obtain ⟨i,less,same⟩ := by simpa [ringNodes] using member
  exact Nat.ne_of_lt less (malloc.distinct same)

theorem head_not_mem : malloc.head ∉ ringNodes malloc count := by
  intro member
  obtain ⟨i,_,same⟩ := by simpa [ringNodes] using member
  exact malloc.apart i same

theorem ringNodes_nodup : (ringNodes malloc count).Nodup := by
  rw [ringNodes,List.nodup_reverse]
  exact List.nodup_range.map malloc.distinct

end Nodes

/-- `load` reads the `next` of a node. -/
inductive Event (Ptr : Type) where
  | load (node : Ptr)
  | free (node : Ptr)
  | message (text : List UInt8)

/-- The `next` fields and insock_data_list. -/
structure State (Ptr : Type) where
  next : Ptr → Ptr
  list : Ptr

def load (state : State Ptr) (node : Ptr) : Traced (Event Ptr) Ptr := do
  Traced.emit (.load node)
  pure (state.next node)

variable [DecidableEq Ptr]

def State.store (state : State Ptr) (node target : Ptr) : State Ptr :=
  { state with next := Function.update state.next node target }

def free (malloc : Malloc Ptr) (state : State Ptr) (node : Ptr) : Traced (Event Ptr) (State Ptr) := do
  Traced.emit (.free node)
  pure (state.store node (malloc.stale node))

/-- while (insock_data_list->next != insock_data_list), with the nodes freed. -/
def freeLoop (malloc : Malloc Ptr) : Nat → State Ptr → Nat → Traced (Event Ptr) (Option (State Ptr × Nat))
  | 0, _, _ => pure none
  | fuel+1, state, number => do
    let next ← load state state.list
    if next ≠ state.list then do
      let data := state.list
      let next ← load state state.list
      let state ← free malloc { state with list := next } data
      freeLoop malloc fuel state (number+1)
    else pure (some (state,number))

/-- for (i = 0; i < INSOCK_DATA_LIST_MAX; i++), from `i` on, where the allocations before
`available` succeed; whether it comes to its end. -/
def insertNodes (malloc : Malloc Ptr) (available : Nat) :
    Nat → Nat → State Ptr → Traced (Event Ptr) (State Ptr × Bool)
  | 0, _, state => pure (state,true)
  | remaining+1, i, state =>
    if i < available then do
      let data := malloc.node i
      let state := state.store data malloc.null
      let next ← load state state.list
      let state := state.store data next
      insertNodes malloc available remaining (i+1) (state.store state.list data)
    else do
      Traced.emit (.message (ascii "mem error\n"))
      pure (state,false)

def emptyList (malloc : Malloc Ptr) : State Ptr :=
  State.store ⟨fun _ => malloc.null,malloc.head⟩ malloc.head malloc.head

/-- insock_data_init after the head is allocated; the result says whether it succeeds. -/
def insockDataInit (malloc : Malloc Ptr) (listMax available fuel : Nat) :
    Traced (Event Ptr) (Option (State Ptr × Bool)) := do
  let (state,full) ← insertNodes malloc available listMax 0 (emptyList malloc)
  if full then pure (some (state,true))
  else do
    let freed ← freeLoop malloc fuel state 0
    pure (freed.map fun freed => (freed.1,false))

def insockDataExit (malloc : Malloc Ptr) (listMax fuel : Nat) (state : State Ptr) :
    Traced (Event Ptr) (Option (State Ptr)) := do
  match ← freeLoop malloc fuel state 0 with
  | none => pure none
  | some (state,number) => do
    if (number : Int) ≠ listMax-1 then Traced.emit (.message (ascii "free error\n")) else pure ()
    let state ← free malloc state state.list
    pure (some state)

/-- The list from its initialisation, with insock_data_exit where that succeeds. -/
def lifetime (malloc : Malloc Ptr) (listMax available fuel : Nat) : Traced (Event Ptr) (Option (State Ptr)) := do
  match ← insockDataInit malloc listMax available fuel with
  | some (state,true) => insockDataExit malloc listMax fuel state
  | some (state,false) => pure (some state)
  | none => pure none

def Event.freed : Event Ptr → Option Ptr
  | .free node => some node
  | _ => none

def allocated (malloc : Malloc Ptr) (listMax available : Nat) : List Ptr :=
  malloc.head::(List.range (min listMax available)).map malloc.node

structure Clean (malloc : Malloc Ptr) (listMax available : Nat) : Prop where
  terminates : ∃ fuel, (lifetime malloc listMax available fuel).value ≠ none
  freedOnce : ∀ fuel, (lifetime malloc listMax available fuel).value ≠ none →
    ((lifetime malloc listMax available fuel).log.filterMap Event.freed).Perm (allocated malloc listMax available)
  alive : ∀ fuel before node after,
    (lifetime malloc listMax available fuel).log = before ++ .load node::after → .free node ∉ before

/-- From the head along `count` nodes back to the head. -/
structure Circular (malloc : Malloc Ptr) (count : Nat) (state : State Ptr) : Prop where
  list : state.list = malloc.head
  chain : Chain state.next (state.next malloc.head) (ringNodes malloc count) malloc.head

section Insert
variable {malloc : Malloc Ptr} {available : Nat}

theorem emptyList_circular : Circular malloc 0 (emptyList malloc) := by
  refine ⟨rfl,?_⟩
  exact Function.update_self _ _ _

theorem Circular.insert {count : Nat} {state : State Ptr} (ring : Circular malloc count state) :
    let data := malloc.node count
    Circular malloc (count+1) ((state.store data (state.next malloc.head)).store malloc.head data) := by
  obtain ⟨list,chain⟩ := ring
  refine ⟨list,?_⟩
  rw [ringNodes_succ]
  simp only [State.store,Function.update_self]
  refine ⟨rfl,?_⟩
  rw [Function.update_of_ne (malloc.apart count),Function.update_self,Chain.update head_not_mem,
    Chain.update node_not_mem]
  exact chain

theorem insertNodes_circular {i : Nat} {state : State Ptr} (ring : Circular malloc i state) (remaining : Nat)
    (before : i ≤ available) :
    let result := insertNodes malloc available remaining i state
    Circular malloc (min (i+remaining) available) result.value.1 ∧ result.value.2 = decide (i+remaining ≤ available) ∧
      result.log.filterMap Event.freed = [] := by
  induction remaining generalizing i state with
  | zero =>
    have whole : min (i+0) available = i := by omega
    rw [whole]
    exact ⟨ring,by simp [insertNodes,before],rfl⟩
  | succ remaining ih =>
    by_cases succeeds : i < available
    · have here : state.list = malloc.head := ring.list
      have fresh : Function.update state.next (malloc.node i) malloc.null malloc.head = state.next malloc.head :=
        Function.update_of_ne (malloc.apart i).symm _ _
      have next := ih ring.insert succeeds
      have same : i+1+remaining = i+(remaining+1) := by omega
      rw [same] at next
      simpa [insertNodes,succeeds,load,State.store,here,fresh,Function.update_idem,Event.freed] using next
    · have stops : min (i+(remaining+1)) available = i := by omega
      rw [stops]
      have partly : ¬i+(remaining+1) ≤ available := by omega
      simpa [insertNodes,succeeds,partly,Event.freed] using ring

end Insert

section Free
variable {malloc : Malloc Ptr} {state : State Ptr} {fuel number : Nat}

theorem freeLoop_step (goes : state.next state.list ≠ state.list) :
    freeLoop malloc (fuel+1) state number =
      let rest := freeLoop malloc fuel
        (State.store { state with list := state.next state.list } state.list (malloc.stale state.list)) (number+1)
      ⟨rest.value,.load state.list::.load state.list::.free state.list::rest.log⟩ := by
  simp only [freeLoop,load,free]
  ext1
  · simp [goes]
  · simp [goes]

theorem freeLoop_stop (stops : state.next state.list = state.list) :
    freeLoop malloc (fuel+1) state number = ⟨some (state,number),[.load state.list]⟩ := by
  simp only [freeLoop,load]
  ext1
  · simp [stops]
  · simp [stops]

theorem freeLoop_chain {nodes : List Ptr} {last : Ptr} (chain : Chain state.next state.list nodes last)
    (distinct : nodes.Nodup) (ends : last ∉ nodes) (fuel : Nat) :
    ∃ next number' before, next.list = last ∧ (freeLoop malloc (fuel+nodes.length) state number).log =
      before ++ (freeLoop malloc fuel next number').log := by
  induction nodes generalizing state number with
  | nil => exact ⟨state,number,[],chain,rfl⟩
  | cons node rest ih =>
    have first : state.list = node := chain.1
    have goes : state.next state.list ≠ state.list :=
      first ▸ chain.next_ne distinct fun same => ends (same ▸ List.mem_cons_self)
    have rest_distinct := (List.nodup_cons.mp distinct).2
    have later : Chain (Function.update state.next node (malloc.stale node)) (state.next node) rest last :=
      (Chain.update (List.nodup_cons.mp distinct).1).mpr chain.2
    rw [← first] at later
    obtain ⟨next,number',before,list,log⟩ := @ih
      (State.store { state with list := state.next state.list } state.list (malloc.stale state.list)) (number+1)
      later rest_distinct (fun member => ends (List.mem_cons_of_mem _ member))
    refine ⟨next,number',.load state.list::.load state.list::.free state.list::before,list,?_⟩
    rw [List.length_cons,← Nat.add_assoc,freeLoop_step goes]
    simp only [log,List.cons_append]

/-- On a ring with nodes the loop comes back to the head, which it freed first. -/
theorem freeLoop_circular {count : Nat} (circular : Circular malloc (count+1) state) :
    ∃ fuel before after, (freeLoop malloc fuel state number).log = before ++ .load malloc.head::after ∧
      .free malloc.head ∈ before := by
  obtain ⟨list,chain⟩ := circular
  have first : state.next malloc.head ∈ ringNodes malloc (count+1) :=
    chain.first_mem (by simp [ringNodes_succ])
  have goes : state.next state.list ≠ state.list := by
    rw [list]
    exact fun same => head_not_mem (same ▸ first)
  have later : Chain (Function.update state.next malloc.head (malloc.stale malloc.head)) (state.next malloc.head)
      (ringNodes malloc (count+1)) malloc.head := (Chain.update head_not_mem).mpr chain
  rw [← list] at later
  obtain ⟨next,number',before,back,log⟩ := @freeLoop_chain _ _ malloc
    (State.store { state with list := state.next state.list } state.list (malloc.stale state.list)) (number+1) _ _
    later ringNodes_nodup (list ▸ head_not_mem) 1
  rw [list] at back
  have reads : ∃ after, (freeLoop malloc 1 next number').log = .load malloc.head::after := by
    by_cases stops : next.next next.list = next.list
    · exact ⟨[],by rw [freeLoop_stop stops,back]⟩
    · exact ⟨_,by rw [freeLoop_step stops,back]⟩
  obtain ⟨after,read⟩ := reads
  refine ⟨1+(ringNodes malloc (count+1)).length+1,.load state.list::.load state.list::.free state.list::before,after,?_,?_⟩
  · rw [freeLoop_step goes]
    simp only [log,read,List.cons_append]
  · simp [list]

end Free

section Lifetime
variable {malloc : Malloc Ptr} {listMax available : Nat}

/-- insock_data_init makes a ring of the nodes it gets, and frees nothing until it has failed. -/
theorem insockDataInit_circular (malloc : Malloc Ptr) (listMax available : Nat) :
    ∃ state log, Circular malloc (min listMax available) state ∧ log.filterMap Event.freed = [] ∧
      ∀ fuel, insockDataInit malloc listMax available fuel =
        if listMax ≤ available then ⟨some (state,true),log⟩
        else ⟨(freeLoop malloc fuel state 0).value.map fun freed => (freed.1,false),
          log ++ (freeLoop malloc fuel state 0).log⟩ := by
  obtain ⟨circular,succeeds,frees⟩ :=
    insertNodes_circular (@emptyList_circular _ _ malloc) listMax (Nat.zero_le available)
  rw [Nat.zero_add] at circular succeeds
  refine ⟨_,_,circular,frees,fun fuel => ?_⟩
  by_cases full : listMax ≤ available
  · have done : (insertNodes malloc available listMax 0 (emptyList malloc)).value.2 = true := by simpa [full] using succeeds
    rw [if_pos full]
    ext1
    · simp [insockDataInit,done]
    · simp [insockDataInit,done]
  · have stopped : (insertNodes malloc available listMax 0 (emptyList malloc)).value.2 = false := by
      simpa [full] using succeeds
    rw [if_neg full]
    ext1
    · simp [insockDataInit,stopped]
    · simp [insockDataInit,stopped]

theorem lifetime_circular (malloc : Malloc Ptr) (listMax available : Nat) :
    ∃ state log, Circular malloc (min listMax available) state ∧
      ∀ fuel, ∃ more, (lifetime malloc listMax available fuel).log = log ++ ((freeLoop malloc fuel state 0).log ++ more) := by
  obtain ⟨state,log,circular,_,runs⟩ := insockDataInit_circular malloc listMax available
  refine ⟨state,log,circular,fun fuel => ?_⟩
  have run := runs fuel
  by_cases full : listMax ≤ available
  · rw [if_pos full] at run
    obtain ⟨more,exits⟩ : ∃ more, (insockDataExit malloc listMax fuel state).log =
        (freeLoop malloc fuel state 0).log ++ more := ⟨_,Traced.bind_log _ _⟩
    refine ⟨more,?_⟩
    rw [lifetime,run,← exits]
    rfl
  · rw [if_neg full] at run
    refine ⟨[],?_⟩
    rw [lifetime,run]
    cases (freeLoop malloc fuel state 0).value <;> simp

theorem not_clean_of_nodes (nodes : 0 < min listMax available) : ¬Clean malloc listMax available := by
  intro clean
  obtain ⟨state,log,circular,runs⟩ := lifetime_circular malloc listMax available
  obtain ⟨count,size⟩ : ∃ count, min listMax available = count+1 := ⟨min listMax available-1,by omega⟩
  rw [size] at circular
  obtain ⟨fuel,before,after,loop,freed⟩ := @freeLoop_circular _ _ malloc state 0 count circular
  obtain ⟨more,run⟩ := runs fuel
  apply clean.alive fuel (log ++ before) malloc.head (after ++ more)
  · rw [run,loop]
    simp only [List.append_assoc,List.cons_append]
  · exact List.mem_append_right _ freed

theorem not_clean_of_failure (some_node : 0 < listMax) : ¬Clean malloc listMax 0 := by
  intro clean
  obtain ⟨state,log,circular,frees,runs⟩ := insockDataInit_circular malloc listMax 0
  rw [Nat.min_zero] at circular
  have alone : state.next state.list = state.list := by
    rw [circular.list]
    exact circular.chain
  have run : lifetime malloc listMax 0 1 = ⟨some state,log ++ [.load state.list]⟩ := by
    rw [lifetime,runs,if_neg (by omega),freeLoop_stop alone]
    ext1 <;> simp
  have once := clean.freedOnce 1 (by simp [run])
  rw [run] at once
  have nothing : [Event.load state.list].filterMap Event.freed = [] := rfl
  simp [frees,nothing,allocated] at once

theorem clean_of_empty (malloc : Malloc Ptr) (available : Nat) : Clean malloc 0 available := by
  have alone : (emptyList malloc).next (emptyList malloc).list = (emptyList malloc).list := Function.update_self _ _ _
  have start : ∀ fuel, lifetime malloc 0 available fuel = insockDataExit malloc 0 fuel (emptyList malloc) := by
    intro fuel
    rfl
  have run : ∀ fuel, lifetime malloc 0 available (fuel+1) =
      ⟨some ((emptyList malloc).store malloc.head (malloc.stale malloc.head)),
        [.load malloc.head,.message (ascii "free error\n"),.free malloc.head]⟩ := by
    intro fuel
    rw [start,insockDataExit,freeLoop_stop alone]
    rfl
  refine ⟨⟨1,by simp [run]⟩,?_,?_⟩
  · intro fuel ends
    cases fuel with
    | zero => exact absurd rfl ends
    | succ fuel =>
      rw [run]
      simp only [allocated,Nat.zero_min,List.range_zero,List.map_nil]
      exact List.Perm.refl [malloc.head]
  · intro fuel before node after split
    cases fuel with
    | zero => simp [start,insockDataExit,freeLoop] at split
    | succ fuel =>
      rw [run] at split
      cases before with
      | nil => exact List.not_mem_nil
      | cons first before =>
        -- the only read comes first
        have member : Event.load node ∈ [Event.message (ascii "free error\n"),.free malloc.head] :=
          (List.cons.inj split).2 ▸ List.mem_append_right before List.mem_cons_self
        simp at member

/-- The list is torn down rightly only if it has no node at all. -/
theorem lifetime_clean_iff (malloc : Malloc Ptr) (listMax available : Nat) :
    Clean malloc listMax available ↔ listMax = 0 := by
  constructor
  · intro clean
    by_contra some_node
    rcases Nat.eq_zero_or_pos available with rfl | got
    · exact not_clean_of_failure (Nat.pos_of_ne_zero some_node) clean
    · exact not_clean_of_nodes (by omega) clean
  · rintro rfl
    exact clean_of_empty malloc available

/-- Nodes at consecutive addresses, which keep their links when they are freed. -/
def consecutive : Malloc Nat where
  null := 0
  head := 1
  node i := i+2
  stale node := node
  distinct := by
    intro i j same
    exact Nat.add_right_cancel same
  apart i := by omega

theorem lifetime_consecutive : ¬∀ (malloc : Malloc Nat) (listMax available : Nat), Clean malloc listMax available :=
  fun always => not_clean_of_nodes (by decide) (always consecutive 100 100)

end Lifetime
end Teardown
end Libsme.Input
