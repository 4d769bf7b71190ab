import Libsme.Input.EventLoop
import Mathlib.Data.List.Nodup

/-! What the event loop does for its callers: which descriptors are watched and for what, and a
queue of the events that were reported and not yet passed on. No pointers, no tables. -/
namespace Libsme.Input.EventLoop

variable {Ptr Callback : Type}

structure Notices (Callback : Type) where
  watched : Nat → Option (Callback × Bits)
  queue : List (Nat × Bits)
  log : List (Effect Callback)

inductive Request (Callback : Type) where
  | watch (fd : Nat) (func : Callback)
  | unwatch (fd : Nat)
  | want (fd : Nat) (change : Bits → Bits)
  | wake (fd : Nat)
  | turn (select : Select) (bad : Nat → Bool)

/-- Whether the events wanted of a descriptor include one of the mask. -/
def wants (watched : Nat → Option (Callback × Bits)) (mask : Bits) (fd : Nat) : Bool :=
  match watched fd with
  | some (_,wanted) => wanted &&& mask ≠ 0#16
  | none => false

def listed (count : Nat) (events : Nat → Bits) : List (Nat × Bits) :=
  ((List.range count).filter fun fd => events fd ≠ 0#16).map fun fd => (fd,events fd)

section Requests
variable (platform : Platform Ptr)

/-- The slots that memset clears when the table is made. -/
def Platform.slots : Nat := platform.sizeofInt*256/platform.sizeofPointer

def offered (watched : Nat → Option (Callback × Bits)) (read write error : Nat → Bool) (fd : Nat) : Bits :=
  eventBits platform (fun fd => wants watched platform.FDE_READ fd && read fd)
    (fun fd => wants watched platform.FDE_WRITE fd && write fd)
    (fun fd => wants watched platform.FDE_ERROR fd && error fd) fd

/-- A descriptor that fcntl refuses is passed on as readable. -/
def faked (watched : Nat → Option (Callback × Bits)) (bad : Nat → Bool) (fd : Nat) : Bits :=
  if (watched fd).isSome && bad fd then platform.FDE_READ else 0#16

def reported (watched : Nat → Option (Callback × Bits)) (select : Select) (bad : Nat → Bool) :
    List (Nat × Bits) :=
  match select with
  | .interrupted => []
  | .failed => []
  | .badFd => listed platform.slots (faked platform watched bad)
  | .ready read write error =>
    let found := listed platform.slots (offered platform watched read write error)
    if found = [] then listed platform.slots (faked platform watched bad) else found

namespace Notices
variable (notices : Notices Callback)

/-- The events of the new mask go, and with its last event the notice goes. -/
def strike (fd : Nat) (events : Bits) (queue : List (Nat × Bits)) : List (Nat × Bits) :=
  queue.filterMap fun notice =>
    if notice.1 ≠ fd then some notice
    else if notice.2 &&& ~~~events = 0#16 then none else some (fd,notice.2 &&& ~~~events)

def want (fd : Nat) (change : Bits → Bits) : Notices Callback :=
  match notices.watched fd with
  | none => notices
  | some (func,wanted) =>
    let events := change wanted &&& FDE_EVENTMASK
    if wanted = events then notices
    else { notices with
      watched := Function.update notices.watched fd (some (func,events))
      queue := strike fd events notices.queue }

def closing (fd : Nat) : List (Effect Callback) :=
  match notices.watched fd with
  | none => []
  | some (_,wanted) => if wanted &&& platform.FDE_DONT_CLOSE = 0#16 then [.close fd] else []

def unwatch (fd : Nat) : Notices Callback where
  watched := Function.update notices.watched fd none
  queue := notices.queue.filter fun notice => notice.1 ≠ fd
  log := notices.log ++ notices.closing platform fd

def calling (fd : Nat) (events : Bits) : List (Effect Callback) :=
  match notices.watched fd with
  | none => []
  | some (func,_) => [.call func fd events]

/-- The notice of the descriptor becomes one of something to read as well. -/
def readable (fd : Nat) (notice : Nat × Bits) : Nat × Bits :=
  if notice.1 = fd then (fd,notice.2 ||| platform.FDE_READ) else notice

def wake (fd : Nat) : Notices Callback :=
  if fd ∈ notices.queue.map Prod.fst then
    { notices with queue := notices.queue.map (readable platform fd) }
  else { notices with log := notices.log ++ notices.calling fd platform.FDE_READ }

def turn (select : Select) (bad : Nat → Bool) : Notices Callback :=
  match notices.queue with
  | [] => { notices with queue := reported platform notices.watched select bad }
  | (fd,events)::rest => { notices with queue := rest, log := notices.log ++ notices.calling fd events }

def step : Request Callback → Notices Callback
  | .watch fd func =>
    { notices with
      watched := Function.update notices.watched fd (some (func,0#16))
      log := notices.log ++ [.nonblock fd] }
  | .unwatch fd => notices.unwatch platform fd
  | .want fd change => notices.want fd change
  | .wake fd => notices.wake platform fd
  | .turn select bad => notices.turn platform select bad

/-- Every notice is about a watched descriptor and has an event; none has two. -/
structure Orderly : Prop where
  distinct : (notices.queue.map Prod.fst).Nodup
  watched : ∀ notice ∈ notices.queue, (notices.watched notice.1).isSome
  events : ∀ notice ∈ notices.queue, notice.2 ≠ 0#16

end Notices
end Requests

def callOf (fd : Nat) : Effect Callback → Option Bits
  | .call _ called events => if called = fd then some events else none
  | _ => none

def callsOf (fd : Nat) (log : List (Effect Callback)) : List Bits := log.filterMap (callOf fd)

def pendingOf (fd : Nat) (queue : List (Nat × Bits)) : List Bits :=
  queue.filterMap fun notice => if notice.1 = fd then some notice.2 else none

section Pending
variable (fd : Nat)

theorem pendingOf_cons (notice : Nat × Bits) (queue : List (Nat × Bits)) :
    pendingOf fd (notice::queue) = (if notice.1 = fd then [notice.2] else []) ++ pendingOf fd queue := by
  by_cases same : notice.1 = fd <;> simp [pendingOf,same]

theorem pendingOf_nil_iff {queue : List (Nat × Bits)} : pendingOf fd queue = [] ↔ ∀ notice ∈ queue, notice.1 ≠ fd := by
  simp [pendingOf,List.filterMap_eq_nil_iff]

theorem pendingOf_append (queue rest : List (Nat × Bits)) :
    pendingOf fd (queue ++ rest) = pendingOf fd queue ++ pendingOf fd rest := List.filterMap_append

theorem callsOf_append (log rest : List (Effect Callback)) :
    callsOf fd (log ++ rest) = callsOf fd log ++ callsOf fd rest := List.filterMap_append

theorem pendingOf_unwatch (queue : List (Nat × Bits)) (other : Nat) :
    pendingOf fd (queue.filter fun notice => notice.1 ≠ other) = if other = fd then [] else pendingOf fd queue := by
  by_cases same : other = fd
  · subst same
    rw [if_pos rfl,pendingOf_nil_iff]
    intro notice member
    simpa using (List.mem_filter.mp member).2
  · rw [if_neg same]
    induction queue with
    | nil => rfl
    | cons notice queue ih =>
      by_cases here : notice.1 = other
      · rw [List.filter_cons_of_neg (by simp [here]),ih,pendingOf_cons,if_neg (here ▸ same),List.nil_append]
      · rw [List.filter_cons_of_pos (by simpa using here),pendingOf_cons,pendingOf_cons,ih]

theorem pendingOf_wake (platform : Platform Ptr) (queue : List (Nat × Bits)) {other : Nat} (unlike : other ≠ fd) :
    pendingOf fd (queue.map (Notices.readable platform other)) = pendingOf fd queue := by
  induction queue with
  | nil => rfl
  | cons notice queue ih =>
    rw [List.map_cons,pendingOf_cons,pendingOf_cons,ih]
    by_cases here : notice.1 = other
    · simp [Notices.readable,here,unlike]
    · simp [Notices.readable,here]

theorem strike_cons (notice : Nat × Bits) (queue : List (Nat × Bits)) (other : Nat) (events : Bits) :
    Notices.strike other events (notice::queue) =
      (if notice.1 ≠ other then [notice]
        else if notice.2 &&& ~~~events = 0#16 then [] else [(other,notice.2 &&& ~~~events)]) ++
          Notices.strike other events queue := by
  rw [Notices.strike,List.filterMap_cons]
  by_cases struck : notice.1 = other
  · by_cases gone : notice.2 &&& ~~~events = 0#16 <;> simp [Notices.strike,struck,gone]
  · simp [Notices.strike,struck]

theorem pendingOf_strike (queue : List (Nat × Bits)) (other : Nat) (events : Bits) :
    pendingOf fd (Notices.strike other events queue) =
      if other = fd then ((pendingOf fd queue).map (· &&& ~~~events)).filter (· ≠ 0#16) else pendingOf fd queue := by
  induction queue with
  | nil => simp [Notices.strike,pendingOf]
  | cons notice queue ih =>
    rw [strike_cons,pendingOf_append,ih,pendingOf_cons]
    by_cases struck : notice.1 = other
    · by_cases gone : notice.2 &&& ~~~events = 0#16
      · by_cases same : other = fd <;> simp [struck,gone,same,pendingOf]
      · by_cases same : other = fd <;> simp [struck,gone,same,pendingOf]
    · rw [if_pos struck]
      by_cases same : other = fd
      · have unlike : notice.1 ≠ fd := same ▸ struck
        simp [same,unlike,pendingOf]
      · by_cases here : notice.1 = fd <;> simp [same,here,pendingOf]

end Pending

section Conservation
variable (platform : Platform Ptr) (notices : Notices Callback) (fd : Nat)

/-- What a request reports of a descriptor: only polls report, and only on an empty queue. -/
def reportsOf : Request Callback → List Bits
  | .turn select bad =>
    if notices.queue = [] then pendingOf fd (reported platform notices.watched select bad) else []
  | _ => []

/-- The request leaves what is pending of the descriptor as it is, unless it passes it on. -/
def Undisturbed (pending : List Bits) : Request Callback → Prop
  | .watch _ _ => True
  | .unwatch other => other = fd → pending = []
  | .want other _ => other = fd → pending = []
  | .wake other => other ≠ fd
  | .turn _ _ => True

variable {platform notices fd}

theorem callsOf_calling {other : Nat} {func : Callback} {wanted events : Bits}
    (watched : notices.watched other = some (func,wanted)) :
    callsOf fd (notices.calling other events) = if other = fd then [events] else [] := by
  rw [Notices.calling,watched]
  by_cases same : other = fd <;> simp [callsOf,callOf,same]

theorem callsOf_calling_other {other : Nat} (unlike : other ≠ fd) (events : Bits) :
    callsOf fd (notices.calling other events) = [] := by
  cases watched : notices.watched other with
  | none => simp [Notices.calling,watched,callsOf]
  | some watch => rw [callsOf_calling watched,if_neg unlike]

theorem callsOf_closing (other : Nat) : callsOf fd (notices.closing platform other) = [] := by
  cases watched : notices.watched other with
  | none => simp [Notices.closing,watched,callsOf]
  | some watch => by_cases closes : watch.2 &&& platform.FDE_DONT_CLOSE = 0#16 <;>
      simp [Notices.closing,watched,closes,callsOf,callOf]

/-- An undisturbed request calls with what was pending and keeps the rest, in order. -/
theorem step_conserves (orderly : notices.Orderly) {request : Request Callback}
    (undisturbed : Undisturbed fd (pendingOf fd notices.queue) request) :
    callsOf fd (notices.step platform request).log ++ pendingOf fd (notices.step platform request).queue =
      callsOf fd notices.log ++ (pendingOf fd notices.queue ++ reportsOf platform notices fd request) := by
  cases request with
  | watch other func => simp [Notices.step,reportsOf,callsOf,callOf]
  | unwatch other =>
    simp only [Notices.step,Notices.unwatch,reportsOf,List.append_nil,callsOf_append,callsOf_closing,pendingOf_unwatch]
    by_cases same : other = fd
    · rw [if_pos same,undisturbed same]
    · rw [if_neg same]
  | want other change =>
    simp only [Notices.step,Notices.want,reportsOf,List.append_nil]
    cases notices.watched other with
    | none => rfl
    | some watch =>
      by_cases unchanged : watch.2 = change watch.2 &&& FDE_EVENTMASK
      · simp only [if_pos unchanged]
      · simp only [if_neg unchanged,pendingOf_strike]
        by_cases same : other = fd
        · simp [same,undisturbed same]
        · simp [same]
  | wake other =>
    have unlike : other ≠ fd := undisturbed
    simp only [Notices.step,Notices.wake,reportsOf,List.append_nil]
    split
    · simp only [pendingOf_wake fd platform notices.queue unlike]
    · simp only [callsOf_append,callsOf_calling_other unlike,List.append_nil]
  | turn select bad =>
    rcases empty : notices.queue with _ | ⟨⟨other,events⟩,rest⟩
    · simp [Notices.step,Notices.turn,reportsOf,empty,pendingOf]
    · obtain ⟨watch,watched⟩ := Option.isSome_iff_exists.mp (orderly.watched (other,events) (by simp [empty]))
      simp only [Notices.step,Notices.turn,reportsOf,empty,reduceCtorEq,if_false,List.append_nil,callsOf_append,
        callsOf_calling watched,pendingOf_cons,List.append_assoc]

theorem Notices.log_prefix (request : Request Callback) : notices.log <+: (notices.step platform request).log := by
  cases request with
  | watch other func => exact List.prefix_append _ _
  | unwatch other => exact List.prefix_append _ _
  | want other change =>
    simp only [Notices.step,Notices.want]
    split
    · exact List.prefix_rfl
    · split
      · exact List.prefix_rfl
      · exact List.prefix_rfl
  | wake other =>
    simp only [Notices.step,Notices.wake]
    split
    · exact List.prefix_rfl
    · exact List.prefix_append _ _
  | turn select bad =>
    simp only [Notices.step,Notices.turn]
    split
    · exact List.prefix_rfl
    · exact List.prefix_append _ _

theorem Notices.want_watched (change : Bits → Bits) (other : Nat) :
    ((notices.want fd change).watched other).isSome = (notices.watched other).isSome := by
  rw [Notices.want]
  cases watched : notices.watched fd with
  | none => rfl
  | some watch =>
    dsimp only
    split
    · rfl
    · by_cases here : other = fd
      · simp [here,watched]
      · simp [here]

theorem strike_fst_sublist (other : Nat) (events : Bits) (queue : List (Nat × Bits)) :
    ((Notices.strike other events queue).map Prod.fst).Sublist (queue.map Prod.fst) := by
  induction queue with
  | nil => exact List.Sublist.refl _
  | cons notice queue ih =>
    rw [strike_cons]
    by_cases struck : notice.1 = other
    · by_cases gone : notice.2 &&& ~~~events = 0#16
      · simpa [struck,gone] using ih.cons other
      · simpa [struck,gone] using ih
    · simpa [struck] using ih

theorem strike_nonzero {other : Nat} {events : Bits} {queue : List (Nat × Bits)}
    (nonzero : ∀ notice ∈ queue, notice.2 ≠ 0#16) : ∀ notice ∈ Notices.strike other events queue, notice.2 ≠ 0#16 := by
  intro notice member
  obtain ⟨before,inside,kept⟩ := List.mem_filterMap.mp member
  by_cases struck : before.1 = other
  · by_cases gone : before.2 &&& ~~~events = 0#16
    · simp [struck,gone] at kept
    · have same : notice = (other,before.2 &&& ~~~events) := by simpa [struck,gone,eq_comm] using kept
      exact same ▸ gone
  · have same : notice = before := by simpa [struck] using kept.symm
    exact same ▸ nonzero before inside

theorem listed_orderly {count : Nat} {events : Nat → Bits}
    (watched : ∀ fd, events fd ≠ 0#16 → (notices.watched fd).isSome) :
    Notices.Orderly { notices with queue := listed count events } := by
  refine ⟨?_,?_,?_⟩
  · simp only [listed,List.map_map,Function.comp_def,List.map_id']
    exact List.nodup_range.filter _
  · intro notice member
    obtain ⟨fd,inside,rfl⟩ := List.mem_map.mp member
    exact watched fd (by simpa using (List.mem_filter.mp inside).2)
  · intro notice member
    obtain ⟨fd,inside,rfl⟩ := List.mem_map.mp member
    simpa using (List.mem_filter.mp inside).2

theorem offered_watched {watched : Nat → Option (Callback × Bits)} {read write error : Nat → Bool} {fd : Nat}
    (offers : offered platform watched read write error fd ≠ 0#16) : (watched fd).isSome := by
  cases unwatched : watched fd with
  | some watch => rfl
  | none => simp [offered,eventBits,wants,unwatched] at offers

theorem faked_watched {watched : Nat → Option (Callback × Bits)} {bad : Nat → Bool} {fd : Nat}
    (fakes : faked platform watched bad fd ≠ 0#16) : (watched fd).isSome := by
  cases unwatched : watched fd with
  | some watch => rfl
  | none => simp [faked,unwatched] at fakes

theorem reported_orderly (select : Select) (bad : Nat → Bool) :
    Notices.Orderly { notices with queue := reported platform notices.watched select bad } := by
  have none_left : Notices.Orderly { notices with queue := [] } := ⟨List.nodup_nil,by simp,by simp⟩
  have faked := @listed_orderly _ notices platform.slots (faked platform notices.watched bad) fun _ => faked_watched
  cases select with
  | interrupted => exact none_left
  | failed => exact none_left
  | badFd => exact faked
  | ready read write error =>
    simp only [reported]
    split
    · exact faked
    · exact listed_orderly fun _ => offered_watched

theorem Notices.Orderly.step (orderly : notices.Orderly) (request : Request Callback) :
    (notices.step platform request).Orderly := by
  obtain ⟨distinct,watched,nonzero⟩ := orderly
  cases request with
  | watch other func =>
    refine ⟨distinct,fun notice member => ?_,nonzero⟩
    by_cases same : notice.1 = other
    · simp [Notices.step,same]
    · simpa [Notices.step,same] using watched notice member
  | unwatch other =>
    refine ⟨distinct.sublist (List.filter_sublist.map _),?_,?_⟩
    · intro notice member
      obtain ⟨inside,unlike⟩ := List.mem_filter.mp member
      have unlike : notice.1 ≠ other := by simpa using unlike
      simpa [Notices.step,Notices.unwatch,unlike] using watched notice inside
    · exact fun notice member => nonzero notice (List.mem_filter.mp member).1
  | want other change =>
    rcases watch : notices.watched other with _ | ⟨func,wanted⟩
    · simpa only [Notices.step,Notices.want,watch] using Notices.Orderly.mk distinct watched nonzero
    · simp only [Notices.step,Notices.want,watch]
      split
      · exact ⟨distinct,watched,nonzero⟩
      · have fewer := strike_fst_sublist other (change wanted &&& FDE_EVENTMASK) notices.queue
        refine ⟨distinct.sublist fewer,fun notice member => ?_,strike_nonzero nonzero⟩
        obtain ⟨before,inside,same⟩ := List.mem_map.mp (fewer.subset (List.mem_map_of_mem member))
        by_cases here : notice.1 = other
        · simp [here]
        · simpa [here,same] using watched before inside
  | wake other =>
    simp only [Notices.step,Notices.wake]
    split
    · refine ⟨?_,?_,?_⟩
      · have same : Prod.fst ∘ readable platform other = Prod.fst := by
          funext notice
          by_cases here : notice.1 = other <;> simp [readable,here]
        simpa only [List.map_map,same] using distinct
      · intro notice member
        obtain ⟨before,inside,rfl⟩ := List.mem_map.mp member
        have here := watched before inside
        by_cases same : before.1 = other
        · simpa [readable,same] using same ▸ here
        · simpa [readable,same] using here
      · intro notice member
        obtain ⟨before,inside,rfl⟩ := List.mem_map.mp member
        have here := nonzero before inside
        by_cases same : before.1 = other
        · simpa [readable,same,BitVec.or_eq_zero_iff] using fun gone => absurd gone here
        · simpa [readable,same] using here
    · exact ⟨distinct,watched,nonzero⟩
  | turn select bad =>
    rcases waiting : notices.queue with _ | ⟨⟨other,events⟩,rest⟩
    · simpa only [Notices.step,Notices.turn,waiting] using reported_orderly select bad
    · rw [waiting] at distinct watched nonzero
      simp only [Notices.step,Notices.turn,waiting]
      exact ⟨(List.nodup_cons.mp distinct).2,fun notice member => watched notice (List.mem_cons_of_mem _ member),
        fun notice member => nonzero notice (List.mem_cons_of_mem _ member)⟩

def turnsOf : Request Callback → Nat
  | .turn _ _ => 1
  | _ => 0

/-- A notice is passed on when it is the first, and else stays, with no others put before it. -/
theorem step_ahead {events : Bits} {before after : List (Nat × Bits)} (orderly : notices.Orderly)
    (queued : notices.queue = before ++ (fd,events)::after) {request : Request Callback}
    (undisturbed : Undisturbed fd [events] request) :
    let next := notices.step platform request
    (before = [] ∧ turnsOf request = 1 ∧ callsOf fd next.log = callsOf fd notices.log ++ [events]) ∨
      (callsOf fd next.log = callsOf fd notices.log ∧ ∃ before' after',
        next.queue = before' ++ (fd,events)::after' ∧ before'.length+turnsOf request ≤ before.length) := by
  cases request with
  | watch other func =>
    exact .inr ⟨by simp [Notices.step,callsOf,callOf],before,after,queued,Nat.le_refl _⟩
  | unwatch other =>
    have unlike : fd ≠ other := fun same => by simpa using undisturbed same.symm
    refine .inr ⟨?_,before.filter (·.1 ≠ other),after.filter (·.1 ≠ other),?_,List.length_filter_le _ _⟩
    · simp only [Notices.step,Notices.unwatch,callsOf_append,callsOf_closing,List.append_nil]
    · simp [Notices.step,Notices.unwatch,queued,unlike]
  | want other change =>
    have unlike : fd ≠ other := fun same => by simpa using undisturbed same.symm
    right
    simp only [Notices.step,Notices.want]
    cases notices.watched other with
    | none => exact ⟨rfl,before,after,queued,Nat.le_refl _⟩
    | some watch =>
      by_cases unchanged : watch.2 = change watch.2 &&& FDE_EVENTMASK
      · simp only [if_pos unchanged]
        exact ⟨trivial,before,after,queued,Nat.le_refl _⟩
      · simp only [if_neg unchanged]
        refine ⟨trivial,Notices.strike other (change watch.2 &&& FDE_EVENTMASK) before,
          Notices.strike other (change watch.2 &&& FDE_EVENTMASK) after,?_,List.length_filterMap_le _ _⟩
        rw [queued,Notices.strike,List.filterMap_append,List.filterMap_cons,if_pos unlike]
        rfl
  | wake other =>
    have unlike : other ≠ fd := undisturbed
    right
    simp only [Notices.step,Notices.wake]
    split
    · refine ⟨rfl,before.map (Notices.readable platform other),after.map (Notices.readable platform other),?_,
        Nat.le_of_eq (List.length_map _)⟩
      rw [queued,List.map_append,List.map_cons,Notices.readable,if_neg unlike.symm]
    · simp only [callsOf_append,callsOf_calling_other unlike,List.append_nil]
      exact ⟨trivial,before,after,queued,Nat.le_refl _⟩
  | turn select bad =>
    cases before with
    | nil =>
      obtain ⟨watch,watched⟩ := Option.isSome_iff_exists.mp (orderly.watched (fd,events) (by simp [queued]))
      left
      simp only [List.nil_append] at queued
      simp only [Notices.step,Notices.turn,queued,callsOf_append,callsOf_calling watched,if_pos,turnsOf]
      exact ⟨trivial,trivial,trivial⟩
    | cons first before =>
      have unlike : first.1 ≠ fd := by
        intro same
        have distinct := orderly.distinct
        simp [queued,same] at distinct
      right
      simp only [List.cons_append] at queued
      simp only [Notices.step,Notices.turn,queued,callsOf_append,callsOf_calling_other unlike,List.append_nil]
      exact ⟨trivial,before,after,rfl,Nat.le_refl _⟩

end Conservation
end Libsme.Input.EventLoop
