import Libsme.Input.EventSync

/-! fdevent_process lists exactly the descriptors that select or fcntl reports, in increasing
order, and never meets one without an fdevent. -/
namespace Libsme.Input.EventLoop

variable {Ptr Callback : Type} {platform : Platform Ptr} {rfd wfd efd : Nat → Bool}

theorem eventBits_eq_zero {fd : Nat} : eventBits platform rfd wfd efd fd = 0#16 ↔ bitCount rfd wfd efd fd = 0 := by
  have read := platform.read
  have write := platform.write
  have error := platform.error
  cases r : rfd fd <;> cases w : wfd fd <;> cases e : efd fd <;>
    simp [eventBits,bitCount,r,w,e,BitVec.or_eq_zero_iff,read,write,error]

theorem listed_range (count : Nat) (events : Nat → Bits) : listed count events =
    (List.range' 0 count).filterMap fun fd => if events fd = 0#16 then none else some (fd,events fd) := by
  rw [listed,← List.range_eq_range',← List.filterMap_eq_map,List.filterMap_filter]
  apply List.filterMap_congr
  intro fd _
  by_cases quiet : events fd = 0#16 <;> simp [quiet]

theorem listed_eq {less more : Nat} {events other : Nat → Bits} (within : less ≤ more)
    (same : ∀ fd < less, events fd = other fd) (beyond : ∀ fd, less ≤ fd → other fd = 0#16) :
    listed less events = listed more other := by
  obtain ⟨rest,rfl⟩ := Nat.exists_eq_add_of_le within
  have nothing : (List.range' less rest).filterMap (fun fd => if other fd = 0#16 then none else some (fd,other fd)) = [] := by
    rw [List.filterMap_eq_nil_iff]
    intro fd member
    simp [beyond fd (List.mem_range'_1.mp member).1]
  have split := @List.range'_append_1 0 less rest
  rw [Nat.zero_add] at split
  rw [listed_range,listed_range,← split,List.filterMap_append,nothing,List.append_nil]
  apply List.filterMap_congr
  intro fd member
  rw [same fd (by simpa using (List.mem_range'_1.mp member).2)]

theorem sum_toNat (p : Nat → Bool) (fds : List Nat) : (fds.map fun fd => (p fd).toNat).sum = (fds.filter p).length := by
  induction fds with
  | nil => rfl
  | cons fd fds ih => cases here : p fd <;> simp [here,ih,Nat.add_comm]

variable {s : State Ptr Callback} {queue : List Ptr}

theorem State.InSync.isSome_watched (sync : s.InSync platform queue) {fd : Nat} (bound : fd < s.select_n) :
    (s.watched platform fd).isSome = (s.fd_table fd).isSome := by
  have low : fd < platform.slots ∧ fd < s.fd_table_max := by
    have := sync.covered
    omega
  rw [State.watched,Option.isSome_map,State.watcher,if_pos low]
  cases slot : s.fd_table fd with
  | none => rfl
  | some node =>
    obtain ⟨fde,stored,_⟩ := (sync.slot fd low.1 low.2 node).mp slot
    simp [stored]

variable [DecidableEq Ptr]

def Fdevent.noticed (fde : Fdevent Callback) (events : Bits) : Fdevent Callback :=
  { fde with events := events, state := fde.state ||| FDE_PENDING }

theorem Fdevent.noticed_sameWatch (fde : Fdevent Callback) (events : Bits) : fde.SameWatch (fde.noticed events) := by
  refine ⟨rfl,rfl,?_,?_⟩
  · rw [Fdevent.active,Fdevent.active,Fdevent.noticed,or_and_apart (by decide)]
  · rw [Fdevent.wanted,Fdevent.wanted,Fdevent.noticed,or_and_apart (by decide)]

theorem Fdevent.noticed_pending (fde : Fdevent Callback) (events : Bits) : (fde.noticed events).pending :=
  or_and_self (by decide)

theorem Fdevent.noticed_proper {fde : Fdevent Callback} {events : Bits} (active : fde.active) (some_event : events ≠ 0#16) :
    (fde.noticed events).Proper :=
  ⟨iff_of_true (fde.noticed_pending events) some_event,
    fun inactive => absurd ((fde.noticed_sameWatch events).active.mpr active) inactive⟩

theorem State.InSync.notice_eq (sync : s.InSync platform queue) {fd : Nat} {events : Bits}
    (watched : (s.watched platform fd).isSome) (quiet : ∀ node ∈ queue, (s.notice node).1 ≠ fd)
    (some_event : events ≠ 0#16) :
    ∃ s' node, EventLoop.notice platform s fd events = .ok s' ∧ s'.InSync platform (queue ++ [node]) ∧
      (queue ++ [node]).map s'.notice = queue.map s.notice ++ [(fd,events)] ∧
      s'.watched platform = s.watched platform ∧ s'.log = s.log ∧ s'.select_n = s.select_n := by
  obtain ⟨fde,watcher⟩ : ∃ fde, s.watcher platform fd = some fde := by
    simpa [State.watched,Option.isSome_iff_exists] using watched
  rw [State.watcher] at watcher
  split at watcher
  · rename_i low
    obtain ⟨node,slot,stored⟩ := Option.bind_eq_some_iff.mp watcher
    obtain ⟨record,there,active,same⟩ := (sync.slot fd low.1 low.2 node).mp slot
    have same_record : record = fde := Option.some.inj (there.symm.trans stored)
    subst same_record
    have idle : ¬record.pending := by
      intro pending
      have inside := (sync.member node).mpr ⟨record,stored,pending⟩
      exact quiet node inside (by simp [State.notice,stored,same])
    have no_events : record.events = 0#16 := by
      by_contra some_event
      exact idle ((sync.proper node record stored).events.mpr some_event)
    obtain ⟨queued,synced⟩ := sync.enqueue stored idle (record.noticed_sameWatch events)
      (Fdevent.noticed_proper active some_event) (record.noticed_pending events)
    have outside : node ∉ queue := fun inside => quiet node inside (by simp [State.notice,stored,same])
    refine ⟨_,node,?_,synced,?_,watched_store stored (record.noticed_sameWatch events),rfl,rfl⟩
    · have no_flag : record.state &&& FDE_PENDING = 0#16 := not_not.mp idle
      simpa [EventLoop.notice,Nat.not_le_of_lt low.2,slot,State.load,stored,bind,Except.bind,no_events,no_flag,
        Fdevent.pending,Fdevent.noticed] using queued
    · have others : queue.map (s.store node (record.noticed events)).notice = queue.map s.notice := by
        apply List.map_congr_left
        intro other inside
        rw [notice_store,if_neg fun same : other = node => outside (same ▸ inside)]
      have here : (s.store node (record.noticed events)).notice node = (fd,events) := by
        simp [notice_store,Fdevent.noticed,same]
      rw [List.map_append,List.map_singleton,← others,← here]
      rfl
  · simp at watcher

theorem State.InSync.collect_eq (sync : s.InSync platform queue) (left i : Nat)
    (watched : ∀ fd, eventBits platform rfd wfd efd fd ≠ 0#16 → (s.watched platform fd).isSome)
    (quiet : ∀ node ∈ queue, (s.notice node).1 < i) :
    ∃ s' more, collect platform rfd wfd efd left i ((List.range' i left).map (bitCount rfd wfd efd)).sum s = .ok s' ∧
      s'.InSync platform (queue ++ more) ∧
      (queue ++ more).map s'.notice = queue.map s.notice ++ (List.range' i left).filterMap (fun fd =>
        if eventBits platform rfd wfd efd fd = 0#16 then none else some (fd,eventBits platform rfd wfd efd fd)) ∧
      s'.watched platform = s.watched platform ∧ s'.log = s.log := by
  induction left generalizing i s queue with
  | zero => exact ⟨s,[],rfl,by simpa using sync,by simp,rfl,rfl⟩
  | succ left ih =>
    rw [List.range'_succ,List.map_cons,List.sum_cons,List.filterMap_cons]
    by_cases some_left : 0 < bitCount rfd wfd efd i+((List.range' (i+1) left).map (bitCount rfd wfd efd)).sum
    · have counted : (((bitCount rfd wfd efd i+((List.range' (i+1) left).map (bitCount rfd wfd efd)).sum : Nat) : Int)-
          (bitCount rfd wfd efd i : Int)) = (((List.range' (i+1) left).map (bitCount rfd wfd efd)).sum : Nat) := by omega
      have positive : 0 < ((bitCount rfd wfd efd i+((List.range' (i+1) left).map (bitCount rfd wfd efd)).sum : Nat) : Int) := by
        omega
      simp only [collect,if_pos positive,counted]
      by_cases nothing : eventBits platform rfd wfd efd i = 0#16
      · simp only [if_pos nothing,bind,Except.bind]
        exact ih sync (i+1) watched fun node inside => Nat.lt_succ_of_lt (quiet node inside)
      · obtain ⟨s₁,node,noticed,synced,notices,watched',log,_⟩ := sync.notice_eq (watched i nothing)
          (fun node inside => Nat.ne_of_lt (quiet node inside)) nothing
        have low : ∀ other ∈ queue ++ [node], (s₁.notice other).1 < i+1 := by
          intro other inside
          have member : s₁.notice other ∈ (queue ++ [node]).map s₁.notice := List.mem_map_of_mem inside
          rw [notices] at member
          rcases List.mem_append.mp member with before | here
          · obtain ⟨old,old_inside,same⟩ := List.mem_map.mp before
            exact same ▸ Nat.lt_succ_of_lt (quiet old old_inside)
          · rw [List.mem_singleton.mp here]
            exact Nat.lt_succ_self i
        obtain ⟨s',more,collected,final,all,watched'',log'⟩ := ih synced (i+1) (watched' ▸ watched) low
        refine ⟨s',node::more,?_,?_,?_,watched''.trans watched',log'.trans log⟩
        · simpa only [if_neg nothing,noticed,bind,Except.bind] using collected
        · simpa using final
        · simpa [notices,nothing] using all
    · have none_left : ¬0 < ((bitCount rfd wfd efd i+((List.range' (i+1) left).map (bitCount rfd wfd efd)).sum : Nat) : Int) := by
        omega
      have silent : ∀ fd ∈ List.range' (i+1) left, eventBits platform rfd wfd efd fd = 0#16 := by
        intro fd member
        have sum : ((List.range' (i+1) left).map (bitCount rfd wfd efd)).sum = 0 := by omega
        have all := List.sum_eq_zero_iff_forall_eq_nat.mp sum
        exact eventBits_eq_zero.mpr (all _ (List.mem_map_of_mem member))
      have here : eventBits platform rfd wfd efd i = 0#16 := eventBits_eq_zero.mpr (by omega)
      have nothing : (List.range' (i+1) left).filterMap (fun fd =>
          if eventBits platform rfd wfd efd fd = 0#16 then none else some (fd,eventBits platform rfd wfd efd fd)) = [] := by
        rw [List.filterMap_eq_nil_iff]
        exact fun fd member => if_pos (silent fd member)
      refine ⟨s,[],?_,by simpa using sync,?_,rfl,rfl⟩
      · simp only [collect,if_neg none_left]
      · simp [here,nothing]

/-- A poll on sets of watched descriptors queues what they report. -/
theorem State.InSync.collect_listed (sync : s.InSync platform []) {events : Nat → Bits}
    (watched : ∀ fd, eventBits platform rfd wfd efd fd ≠ 0#16 → (s.watched platform fd).isSome)
    (same : ∀ fd < s.select_n, eventBits platform rfd wfd efd fd = events fd)
    (beyond : ∀ fd, s.select_n ≤ fd → events fd = 0#16) :
    ∃ s' queue, collect platform rfd wfd efd s.select_n 0
        ((List.range s.select_n).map (bitCount rfd wfd efd)).sum s = .ok s' ∧ s'.InSync platform queue ∧
      s'.view platform queue = { s.view platform [] with queue := listed platform.slots events } := by
  obtain ⟨s',queue,collected,synced,notices,watched',log⟩ := sync.collect_eq s.select_n 0 watched (by simp)
  refine ⟨s',queue,?_,by simpa using synced,?_⟩
  · rw [List.range_eq_range']
    exact collected
  · rw [← listed_eq sync.covered.1 same beyond,listed_range]
    simp only [List.nil_append,List.map_nil] at notices
    simp only [State.view,notices,watched',log]

theorem State.InSync.faked_eq (sync : s.InSync platform []) (bad : Nat → Bool) :
    ∃ s' queue, (do
        let (rfd,n) ← fdevent_fd_check s bad
        collect platform rfd (fun _ => false) (fun _ => false) s.select_n 0 n s) = .ok s' ∧
      s'.InSync platform queue ∧
      s'.view platform queue =
        { s.view platform [] with queue := listed platform.slots (faked platform (s.watched platform) bad) } := by
  let rfd : Nat → Bool := fun i => i ∈ (List.range s.select_n).filter (checkFails s bad)
  have found : ∀ fd, rfd fd = true ↔ fd < s.select_n ∧ (s.watched platform fd).isSome ∧ bad fd := by
    intro fd
    by_cases bound : fd < s.select_n
    · simp [rfd,checkFails,bound,sync.isSome_watched bound]
    · simp [rfd,bound]
  have watched : ∀ fd, eventBits platform rfd (fun _ => false) (fun _ => false) fd ≠ 0#16 →
      (s.watched platform fd).isSome := by
    intro fd reported
    have inside : rfd fd = true := by
      by_contra outside
      simp [eventBits,outside] at reported
    exact ((found fd).mp inside).2.1
  have events : ∀ fd < s.select_n, eventBits platform rfd (fun _ => false) (fun _ => false) fd =
      faked platform (s.watched platform) bad fd := by
    intro fd bound
    simp [eventBits,faked,found,bound]
  have count : ((List.range s.select_n).map (bitCount rfd (fun _ => false) (fun _ => false))).sum =
      ((List.range s.select_n).filter (checkFails s bad)).length := by
    rw [← sum_toNat]
    congr 1
    apply List.map_congr_left
    intro fd member
    simp [bitCount,rfd,List.mem_range.mp member]
  obtain ⟨s',queue,collected,synced,view⟩ := sync.collect_listed watched events fun fd beyond => by
    simp [faked,sync.unwatched beyond]
  refine ⟨s',queue,?_,synced,view⟩
  rw [count] at collected
  simp only [fdevent_fd_check,if_pos sync.covered.2,bind,Except.bind]
  exact collected

theorem State.InSync.process (sync : s.InSync platform []) (select : Select) (bad : Nat → Bool) :
    ∃ s' queue, fdevent_process platform s select bad = .ok s' ∧ s'.InSync platform queue ∧
      s'.view platform queue = (s.view platform []).turn platform select bad := by
  have room : ¬FD_SETSIZE < s.select_n := by
    have bound := sync.covered.1
    have slots := @slots_le _ platform
    simp only [FD_SETSIZE]
    omega
  simp only [fdevent_process,if_neg room,Notices.turn,reported,State.view,List.map_nil]
  cases select with
  | interrupted => exact ⟨s,[],rfl,sync,rfl⟩
  | failed => exact ⟨s,[],rfl,sync,rfl⟩
  | badFd => exact sync.faked_eq bad
  | ready read write error =>
    have offers : eventBits platform (fun i => s.read_fds i && read i) (fun i => s.write_fds i && write i)
        (fun i => s.error_fds i && error i) = offered platform (s.watched platform) read write error := by
      funext fd
      simp only [offered,sync.reading,sync.writing,sync.failing]
    have beyond : ∀ fd, s.select_n ≤ fd → offered platform (s.watched platform) read write error fd = 0#16 := by
      intro fd past
      by_contra offer
      have watched := offered_watched offer
      rw [sync.unwatched past] at watched
      exact absurd watched (by simp)
    have silent : ((List.range s.select_n).map (bitCount (fun i => s.read_fds i && read i)
        (fun i => s.write_fds i && write i) (fun i => s.error_fds i && error i))).sum = 0 ↔
          listed platform.slots (offered platform (s.watched platform) read write error) = [] := by
      rw [← listed_eq sync.covered.1 (fun _ _ => rfl) beyond,← offers]
      simp only [List.sum_eq_zero_iff_forall_eq_nat,List.mem_map,forall_exists_index,and_imp,
        forall_apply_eq_imp_iff₂,List.mem_range,listed,List.map_eq_nil_iff,List.filter_eq_nil_iff,
        decide_eq_true_eq,not_not,ne_eq,eventBits_eq_zero]
    by_cases none_ready : listed platform.slots (offered platform (s.watched platform) read write error) = []
    · simp only [if_pos none_ready,if_pos (silent.mpr none_ready)]
      exact sync.faked_eq bad
    · simp only [if_neg none_ready,if_neg fun sum => none_ready (silent.mp sum)]
      exact sync.collect_listed (fun fd reported => offered_watched (offers ▸ reported))
        (fun fd _ => congrFun offers fd) beyond

/-- A turn of the loop: the first notice is passed on, or the descriptors are polled. -/
theorem State.InSync.turn (sync : s.InSync platform queue) (select : Select) (bad : Nat → Bool) :
    ∃ s' queue', EventLoop.turn platform s select bad = .ok s' ∧ s'.InSync platform queue' ∧
      s'.view platform queue' = (s.view platform queue).turn platform select bad := by
  cases queue with
  | nil =>
    obtain ⟨s',queue,processed,synced,view⟩ := sync.process select bad
    refine ⟨s',queue,?_,synced,view⟩
    simpa only [EventLoop.turn,sync.dequeue_none,bind,Except.bind] using processed
  | cons node rest =>
    obtain ⟨s',called,synced,view⟩ := sync.call select bad
    exact ⟨s',rest,called,synced,view⟩

end Libsme.Input.EventLoop
