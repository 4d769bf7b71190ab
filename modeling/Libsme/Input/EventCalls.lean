import Libsme.Input.EventPoll

/-! The calls that the owners of fdevents make: each keeps the event loop in step and is a
request about a descriptor. -/
namespace Libsme.Input.EventLoop

variable {Ptr Callback : Type} {platform : Platform Ptr} {s : State Ptr Callback} {queue : List Ptr} {node : Ptr}
  {fde new : Fdevent Callback}

theorem State.InSync.low (sync : s.InSync platform queue) {fd : Nat} (bound : fd < s.select_n) :
    fd < platform.slots ∧ fd < s.fd_table_max := by
  have := sync.covered
  omega

theorem State.InSync.setFds_eq (sync : s.InSync platform queue) (stored : s.fde node = some fde) (active : fde.active)
    (read write error : Bool) : setFds s fde.fd read write error = .ok { s with
      read_fds := Function.update s.read_fds fde.fd.toNat read
      write_fds := Function.update s.write_fds fde.fd.toNat write
      error_fds := Function.update s.error_fds fde.fd.toNat error } := by
  have bounds := sync.inside node fde stored active
  have few := sync.covered.1
  have slots := @slots_le _ platform
  have inside : 0 ≤ fde.fd ∧ fde.fd < FD_SETSIZE := by
    simp only [FD_SETSIZE]
    omega
  rw [setFds,if_pos inside]

theorem wants_update {watched : Nat → Option (Callback × Bits)} {fd : Nat} {func : Callback} {wanted : Bits}
    (mask : Bits) (sets : Nat → Bool) (mirrored : ∀ fd, sets fd = wants watched mask fd) (other : Nat) :
    Function.update sets fd (decide (wanted &&& mask ≠ 0#16)) other =
      wants (Function.update watched fd (some (func,wanted))) mask other := by
  by_cases here : other = fd
  · subst here
    simp [wants]
  · have before := mirrored other
    simp only [wants] at before ⊢
    rw [Function.update_of_ne here,Function.update_of_ne here,before]

theorem lastUsed_succ (table : Nat → Option Ptr) (count : Nat) :
    lastUsed table (count+1) = if (table count).isSome then count else lastUsed table count := by
  rw [lastUsed,List.range_succ,List.foldl_append]
  rfl

theorem lastUsed_ge {table : Nat → Option Ptr} {count i : Nat} (bound : i < count) (used : (table i).isSome) :
    i ≤ lastUsed table count := by
  induction count with
  | zero => omega
  | succ count ih =>
    rw [lastUsed_succ]
    split
    · omega
    · rename_i empty
      rcases Nat.lt_succ_iff_lt_or_eq.mp bound with less | rfl
      · exact ih less
      · exact absurd used empty

theorem lastUsed_lt {table : Nat → Option Ptr} {count : Nat} (some_slot : 0 < count) : lastUsed table count < count := by
  induction count with
  | zero => omega
  | succ count ih =>
    rw [lastUsed_succ]
    split
    · exact Nat.lt_succ_self count
    · rcases Nat.eq_zero_or_pos count with rfl | positive
      · exact Nat.zero_lt_one
      · exact Nat.lt_succ_of_lt (ih positive)

variable [DecidableEq Ptr]

def State.wanting (s : State Ptr Callback) (platform : Platform Ptr) (node : Ptr) (new : Fdevent Callback) :
    State Ptr Callback :=
  { s.store node new with
    read_fds := Function.update s.read_fds new.fd.toNat (new.wanted &&& platform.FDE_READ ≠ 0#16)
    write_fds := Function.update s.write_fds new.fd.toNat (new.wanted &&& platform.FDE_WRITE ≠ 0#16)
    error_fds := Function.update s.error_fds new.fd.toNat (new.wanted &&& platform.FDE_ERROR ≠ 0#16) }

structure Fdevent.SameList (fde other : Fdevent Callback) : Prop where
  fd : other.fd = fde.fd
  func : other.func = fde.func
  active : other.active ↔ fde.active
  pending : other.pending ↔ fde.pending
  events : other.events = fde.events

theorem State.InSync.watched_wanting (sync : s.InSync platform queue) (stored : s.fde node = some fde)
    (active : fde.active) (same : fde.SameList new) :
    (s.wanting platform node new).watched platform =
      Function.update (s.watched platform) fde.fd.toNat (some (fde.func,new.wanted)) := by
  obtain ⟨fd,fd_eq,bound,slot⟩ := sync.fd_eq stored active
  have there : fd < platform.slots ∧ fd < s.fd_table_max := sync.low bound
  funext other
  rw [fd_eq,Int.toNat_natCast]
  by_cases here : other = fd
  · subst here
    have still : other < platform.slots ∧ other < (s.wanting platform node new).fd_table_max := there
    rw [State.watched,State.watcher,if_pos still,Function.update_self]
    simp [State.wanting,State.store,slot,same.func]
  · rw [Function.update_of_ne here,State.watched,State.watched]
    by_cases low : other < platform.slots ∧ other < s.fd_table_max
    · have still : other < platform.slots ∧ other < (s.wanting platform node new).fd_table_max := low
      rw [State.watcher,State.watcher,if_pos low,if_pos still]
      cases other_slot : s.fd_table other with
      | none => simp [State.wanting,State.store,other_slot]
      | some near =>
        have unlike : near ≠ node := by
          rintro rfl
          obtain ⟨record,record_stored,_,record_fd⟩ := (sync.slot other low.1 low.2 near).mp other_slot
          rw [stored] at record_stored
          rw [← Option.some.inj record_stored,fd_eq] at record_fd
          exact here (Int.ofNat.inj record_fd).symm
        simp [State.wanting,State.store,other_slot,unlike]
    · have still : ¬(other < platform.slots ∧ other < (s.wanting platform node new).fd_table_max) := low
      rw [State.watcher,State.watcher,if_neg low,if_neg still]

theorem State.InSync.wanting (sync : s.InSync platform queue) (stored : s.fde node = some fde) (active : fde.active)
    (same : fde.SameList new) : (s.wanting platform node new).InSync platform queue := by
  have head : platform.list ≠ node := by
    rintro rfl
    simp [sync.head] at stored
  have watched := sync.watched_wanting stored active same
  have proper : new.Proper := by
    refine ⟨?_,fun inactive => absurd (same.active.mpr active) inactive⟩
    rw [same.pending,same.events]
    exact (sync.proper node fde stored).events
  have fds : (s.wanting platform node new).fde = Function.update s.fde node (some new) := rfl
  refine ⟨sync.circle,?_,?_,?_,?_,?_,?_,?_,?_,sync.covered,sync.table⟩
  · rw [fds,Function.update_of_ne head]
    exact sync.head
  · intro other
    rw [fds,sync.member]
    by_cases here : other = node
    · subst here
      simp [stored,same.pending]
    · simp [here]
  · intro other record there
    rw [fds] at there
    by_cases here : other = node
    · subst here
      have equal : new = record := by simpa using there
      exact equal ▸ proper
    · exact sync.proper other record (by simpa [here] using there)
  · intro other record there lives
    rw [fds] at there
    by_cases here : other = node
    · subst here
      have equal : new = record := by simpa using there
      rw [← equal,same.fd]
      exact sync.inside other fde stored active
    · exact sync.inside other record (by simpa [here] using there) lives
  · intro fd low bound other
    refine (sync.slot fd low bound other).trans ?_
    rw [fds]
    by_cases here : other = node
    · subst here
      simp [stored,same.active,same.fd]
    · simp [here]
  · intro fd
    rw [watched,← same.fd]
    exact wants_update platform.FDE_READ s.read_fds sync.reading fd
  · intro fd
    rw [watched,← same.fd]
    exact wants_update platform.FDE_WRITE s.write_fds sync.writing fd
  · intro fd
    rw [watched,← same.fd]
    exact wants_update platform.FDE_ERROR s.error_fds sync.failing fd

/-- The record of fdevent_set with its new mask. -/
def Fdevent.rewanted (fde : Fdevent Callback) (events : Bits) : Fdevent Callback :=
  { fde with state := (fde.state &&& FDE_STATEMASK) ||| (events &&& FDE_EVENTMASK) }

theorem Fdevent.rewanted_sameList (fde : Fdevent Callback) (events : Bits) : fde.SameList (fde.rewanted events) := by
  refine ⟨rfl,rfl,?_,?_,rfl⟩
  · rw [Fdevent.active,Fdevent.active,Fdevent.rewanted,replaced_and (by decide)]
  · rw [Fdevent.pending,Fdevent.pending,Fdevent.rewanted,replaced_and (by decide)]

theorem Fdevent.rewanted_wanted (fde : Fdevent Callback) (events : Bits) :
    (fde.rewanted events).wanted = events &&& FDE_EVENTMASK := replaced_wanted

theorem State.InSync.update_eq (sync : s.InSync platform queue) (stored : s.fde node = some fde) (active : fde.active)
    (events : Bits) : fdevent_update platform s node fde (events &&& FDE_EVENTMASK) =
      .ok (s.wanting platform node (fde.rewanted events)) := by
  rw [fdevent_update,sync.setFds_eq stored active]
  simp only [State.wanting,Fdevent.rewanted_wanted]
  rfl

theorem State.InSync.strike_erase (sync : s.InSync platform queue) (stored : s.fde node = some fde) (active : fde.active)
    {events : Bits} (gone : fde.pending → fde.events &&& ~~~events = 0#16) :
    Notices.strike fde.fd.toNat events (queue.map s.notice) = (queue.erase node).map s.notice := by
  have distinct : queue.Nodup := (List.nodup_cons.mp sync.circle.distinct).2
  rw [Notices.strike,List.filterMap_map,distinct.erase_eq_filter,← List.filterMap_eq_map,List.filterMap_filter]
  apply List.filterMap_congr
  intro other inside
  have here : s.notice node = (fde.fd.toNat,fde.events) := by simp [State.notice,stored]
  have fst := sync.notice_fst stored active (sync.installed inside)
  by_cases same : other = node
  · subst same
    have pending : fde.pending := by
      obtain ⟨record,there,waits⟩ := (sync.member other).mp inside
      rw [stored] at there
      exact Option.some.inj there ▸ waits
    simp [here,gone pending]
  · have unlike : (s.notice other).1 ≠ fde.fd.toNat := fun equal => same (fst.mp equal)
    simp [unlike,same]

theorem State.InSync.strike_store (sync : s.InSync platform queue) (stored : s.fde node = some fde) (active : fde.active)
    {events : Bits} (left : fde.events &&& ~~~events ≠ 0#16) :
    Notices.strike fde.fd.toNat events (queue.map s.notice) =
      queue.map (s.store node { fde with events := fde.events &&& ~~~events }).notice := by
  rw [Notices.strike,List.filterMap_map,← List.filterMap_eq_map]
  apply List.filterMap_congr
  intro other inside
  have here : s.notice node = (fde.fd.toNat,fde.events) := by simp [State.notice,stored]
  have fst := sync.notice_fst stored active (sync.installed inside)
  by_cases same : other = node
  · subst same
    simp [here,left,notice_store]
  · have unlike : (s.notice other).1 ≠ fde.fd.toNat := fun equal => same (fst.mp equal)
    simp [unlike,same,notice_store]

theorem State.store_self (stored : s.fde node = some fde) : s.store node fde = s := by
  rw [State.store,← stored,Function.update_eq_self]

theorem State.InSync.strike (sync : s.InSync platform queue) (stored : s.fde node = some fde) (active : fde.active)
    (events : Bits) :
    ∃ s' queue',
      (if fde.pending then
        if fde.events &&& ~~~events = 0#16 then do
          let s ← fdevent_plist_remove platform s node
          .ok (s.store node { fde.called with events := fde.events &&& ~~~events })
        else .ok (s.store node { fde with events := fde.events &&& ~~~events })
      else .ok (s.store node fde)) = .ok s' ∧ s'.InSync platform queue' ∧
      s'.view platform queue' =
        { s.view platform queue with queue := Notices.strike fde.fd.toNat events (queue.map s.notice) } := by
  by_cases pending : fde.pending
  · rw [if_pos pending]
    have inside := (sync.member node).mpr ⟨fde,stored,pending⟩
    by_cases gone : fde.events &&& ~~~events = 0#16
    · rw [if_pos gone,plist_remove_eq sync inside rfl fun _ alive => alive,gone]
      refine ⟨_,queue.erase node,rfl,sync.leave stored pending,?_⟩
      have distinct : queue.Nodup := (List.nodup_cons.mp sync.circle.distinct).2
      have others : (queue.erase node).map s.notice = (queue.erase node).map (s.store node fde.called).notice := by
        apply List.map_congr_left
        intro other member
        rw [notice_store,if_neg fun same : other = node => distinct.not_mem_erase (same ▸ member)]
      have same := @watched_store _ _ platform s node fde _ fde.called stored fde.called_sameWatch
      rw [sync.strike_erase stored active fun _ => gone,others,State.view,State.view,← same]
      rfl
    · rw [if_neg gone]
      have same : fde.SameWatch { fde with events := fde.events &&& ~~~events } := ⟨rfl,rfl,Iff.rfl,rfl⟩
      refine ⟨_,queue,rfl,sync.store stored same ?_ Iff.rfl,?_⟩
      · exact ⟨iff_of_true pending gone,fun inactive => absurd active inactive⟩
      · rw [sync.strike_store stored active gone,State.view,State.view,watched_store stored same]
        rfl
  · rw [if_neg pending,State.store_self stored]
    have outside : node ∉ queue := by
      intro inside
      obtain ⟨record,there,waits⟩ := (sync.member node).mp inside
      rw [stored] at there
      exact pending (Option.some.inj there ▸ waits)
    refine ⟨s,queue,rfl,sync,?_⟩
    rw [sync.strike_erase stored active fun waits => absurd waits pending,List.erase_of_not_mem outside]
    rfl

/-- fdevent_set on a watched descriptor, whether it is pending or not. -/
theorem State.InSync.set (sync : s.InSync platform queue) (stored : s.fde node = some fde) (active : fde.active)
    (change : Bits → Bits) :
    ∃ s' queue', fdevent_set platform s node (change fde.wanted) = .ok s' ∧ s'.InSync platform queue' ∧
      s'.view platform queue' = (s.view platform queue).want fde.fd.toNat change := by
  have watched := sync.watched_eq stored active
  by_cases unchanged : fde.wanted = change fde.wanted &&& FDE_EVENTMASK
  · refine ⟨s,queue,?_,sync,?_⟩
    · simp only [fdevent_set,State.load,stored,bind,Except.bind,if_pos unchanged]
    · simp only [Notices.want,State.view,watched,if_pos unchanged]
  have same := fde.rewanted_sameList (change fde.wanted)
  have synced := sync.wanting stored active same
  have there : (s.wanting platform node (fde.rewanted (change fde.wanted))).fde node =
      some (fde.rewanted (change fde.wanted)) := by simp [State.wanting,State.store]
  obtain ⟨s',queue',struck,final,view⟩ :=
    synced.strike there (same.active.mpr active) (change fde.wanted &&& FDE_EVENTMASK)
  refine ⟨s',queue',?_,final,?_⟩
  · rw [← struck]
    simp only [fdevent_set,State.load,stored,bind,Except.bind,if_neg unchanged,if_pos active,
      sync.update_eq stored active]
    rfl
  · have notices : (s.wanting platform node (fde.rewanted (change fde.wanted))).notice = s.notice := by
      funext other
      refine (@notice_store _ _ s node _ (fde.rewanted (change fde.wanted)) other).trans ?_
      by_cases here : other = node
      · subst here
        simp [State.notice,stored,Fdevent.rewanted]
      · rw [if_neg here]
    rw [view,notices]
    simp only [Notices.want,State.view,watched,if_neg unchanged,sync.watched_wanting stored active same,
      Fdevent.rewanted_wanted]
    rfl

def Fdevent.removed (fde : Fdevent Callback) : Fdevent Callback := { fde with state := 0#16, events := 0#16 }

def State.unwatching (s : State Ptr Callback) (node : Ptr) (fde : Fdevent Callback) : State Ptr Callback :=
  { s.store node fde.removed with
    fd_table := Function.update s.fd_table fde.fd.toNat none
    read_fds := Function.update s.read_fds fde.fd.toNat false
    write_fds := Function.update s.write_fds fde.fd.toNat false
    error_fds := Function.update s.error_fds fde.fd.toNat false
    select_n := lastUsed s.fd_table s.select_n+1 }

theorem State.InSync.watched_unwatching (sync : s.InSync platform queue) (stored : s.fde node = some fde)
    (active : fde.active) :
    (s.unwatching node fde).watched platform = Function.update (s.watched platform) fde.fd.toNat none := by
  obtain ⟨fd,fd_eq,bound,slot⟩ := sync.fd_eq stored active
  funext other
  rw [fd_eq,Int.toNat_natCast]
  by_cases here : other = fd
  · subst here
    rw [Function.update_self,State.watched,State.watcher]
    simp [State.unwatching,fd_eq]
  · rw [Function.update_of_ne here,State.watched,State.watched]
    by_cases low : other < platform.slots ∧ other < s.fd_table_max
    · have still : other < platform.slots ∧ other < (s.unwatching node fde).fd_table_max := low
      rw [State.watcher,State.watcher,if_pos low,if_pos still]
      cases other_slot : s.fd_table other with
      | none => simp [State.unwatching,State.store,other_slot,fd_eq,here]
      | some near =>
        have unlike : near ≠ node := by
          rintro rfl
          obtain ⟨record,record_stored,_,record_fd⟩ := (sync.slot other low.1 low.2 near).mp other_slot
          rw [stored] at record_stored
          rw [← Option.some.inj record_stored,fd_eq] at record_fd
          exact here (Int.ofNat.inj record_fd).symm
        simp [State.unwatching,State.store,other_slot,unlike,fd_eq,here]
    · have still : ¬(other < platform.slots ∧ other < (s.unwatching node fde).fd_table_max) := low
      rw [State.watcher,State.watcher,if_neg low,if_neg still]

theorem wants_update_none {watched : Nat → Option (Callback × Bits)} {fd : Nat} (mask : Bits) (sets : Nat → Bool)
    (mirrored : ∀ fd, sets fd = wants watched mask fd) (other : Nat) :
    Function.update sets fd false other = wants (Function.update watched fd none) mask other := by
  by_cases here : other = fd
  · subst here
    simp [wants]
  · have before := mirrored other
    simp only [wants] at before ⊢
    rw [Function.update_of_ne here,Function.update_of_ne here,before]

theorem State.InSync.unwatching (sync : s.InSync platform queue) (stored : s.fde node = some fde) (active : fde.active)
    (idle : ¬fde.pending) : (s.unwatching node fde).InSync platform queue := by
  obtain ⟨fd,fd_eq,bound,slot⟩ := sync.fd_eq stored active
  have head : platform.list ≠ node := by
    rintro rfl
    simp [sync.head] at stored
  have watched := sync.watched_unwatching stored active
  have fds : (s.unwatching node fde).fde = Function.update s.fde node (some fde.removed) := rfl
  have removed_idle : ¬fde.removed.pending := by simp [Fdevent.pending,Fdevent.removed]
  have removed_inactive : ¬fde.removed.active := by simp [Fdevent.active,Fdevent.removed]
  refine ⟨sync.circle,?_,?_,?_,?_,?_,?_,?_,?_,?_,sync.table⟩
  · rw [fds,Function.update_of_ne head]
    exact sync.head
  · intro other
    rw [fds,sync.member]
    by_cases here : other = node
    · subst here
      simp [stored,idle,removed_idle]
    · simp [here]
  · intro other record there
    rw [fds] at there
    by_cases here : other = node
    · subst here
      have equal : fde.removed = record := by simpa using there
      exact equal ▸ ⟨iff_of_false removed_idle (by simp [Fdevent.removed]),fun _ => rfl⟩
    · exact sync.proper other record (by simpa [here] using there)
  · intro other record there lives
    rw [fds] at there
    by_cases here : other = node
    · subst here
      have equal : fde.removed = record := by simpa using there
      exact absurd (equal ▸ lives) removed_inactive
    · have record_stored : s.fde other = some record := by simpa [here] using there
      obtain ⟨near,near_eq,near_bound,near_slot⟩ := sync.fd_eq record_stored lives
      have last := lastUsed_ge near_bound (by simp [near_slot] : (s.fd_table near).isSome)
      refine ⟨by omega,?_⟩
      simp only [State.unwatching]
      omega
  · intro other low bound_other near
    rw [fds]
    by_cases here : other = fd
    · subst here
      have empty : (s.unwatching node fde).fd_table other = none := by simp [State.unwatching,fd_eq]
      rw [empty]
      refine iff_of_false (by simp) ?_
      rintro ⟨record,there,lives,same⟩
      by_cases again : near = node
      · subst again
        have equal : fde.removed = record := by simpa using there
        exact removed_inactive (equal ▸ lives)
      · have taken := (sync.slot other low bound_other near).mpr ⟨record,by simpa [again] using there,lives,same⟩
        exact again (Option.some.inj (taken.symm.trans slot))
    · have kept : (s.unwatching node fde).fd_table other = s.fd_table other := by simp [State.unwatching,fd_eq,here]
      rw [kept,sync.slot other low bound_other near]
      by_cases again : near = node
      · subst again
        have unlike : fde.fd ≠ other := by
          rw [fd_eq]
          exact fun same => here (Int.ofNat.inj same).symm
        simp [stored,unlike,removed_inactive]
      · simp [again]
  · intro other
    rw [watched]
    exact wants_update_none platform.FDE_READ s.read_fds sync.reading other
  · intro other
    rw [watched]
    exact wants_update_none platform.FDE_WRITE s.write_fds sync.writing other
  · intro other
    rw [watched]
    exact wants_update_none platform.FDE_ERROR s.error_fds sync.failing other
  · have fewer := @lastUsed_lt _ s.fd_table s.select_n (by omega)
    exact ⟨Nat.le_trans fewer sync.covered.1,Nat.le_trans fewer sync.covered.2⟩

theorem State.InSync.filter_notice (sync : s.InSync platform queue) (stored : s.fde node = some fde)
    (active : fde.active) : (queue.map s.notice).filter (fun notice => notice.1 ≠ fde.fd.toNat) =
      (queue.erase node).map s.notice := by
  have distinct : queue.Nodup := (List.nodup_cons.mp sync.circle.distinct).2
  rw [distinct.erase_eq_filter,List.filter_map]
  refine congrArg (List.map s.notice) (List.filter_congr ?_)
  intro other inside
  have fst := sync.notice_fst stored active (sync.installed inside)
  rcases eq_or_ne other node with rfl | unlike
  · simp [fst.mpr rfl]
  · have apart : (s.notice other).1 ≠ fde.fd.toNat := fun equal => unlike (fst.mp equal)
    simp [unlike,apart]

theorem State.InSync.detach (sync : s.InSync platform queue) (stored : s.fde node = some fde) (active : fde.active)
    (links : Links Ptr) :
    (do
      let s ← fdevent_disconnect { s with links := links } fde.fd
      let s ← fdevent_unregister platform s node fde
      .ok (s.store node fde.removed)) =
      Except.ok { s.unwatching node fde with
        links := links
        log := s.log ++ (s.view platform queue).closing platform fde.fd.toNat } := by
  obtain ⟨fd,fd_eq,bound,slot⟩ := sync.fd_eq stored active
  have sets := sync.setFds_eq stored active false false false
  have covered := sync.covered.2
  have known : ¬(fde.fd < 0 ∨ (s.fd_table_max : Int) ≤ fde.fd) := by omega
  have there : s.fd_table fde.fd.toNat = some node := by rw [fd_eq,Int.toNat_natCast,slot]
  have keeps : fde.wanted &&& platform.FDE_DONT_CLOSE = fde.state &&& platform.FDE_DONT_CLOSE := by
    rw [Fdevent.wanted,BitVec.and_assoc,BitVec.and_comm FDE_EVENTMASK,platform.dontClose]
  have watched := sync.watched_eq stored active
  have inside : 0 ≤ fde.fd ∧ fde.fd < FD_SETSIZE := by
    have slots := @slots_le _ platform
    have few := sync.covered.1
    simp only [FD_SETSIZE]
    omega
  simp only [fdevent_disconnect,setFds,if_pos inside,bind,Except.bind,if_pos covered,fdevent_unregister,
    if_neg known,there,ne_eq,not_true,if_false,Notices.closing,State.view,watched,keeps]
  by_cases closes : fde.state &&& platform.FDE_DONT_CLOSE = 0#16
  · simp [closes,State.emit,State.unwatching,State.store,sync.toNat_fd stored active]
  · simp [closes,State.unwatching,State.store]

theorem State.InSync.remove (sync : s.InSync platform queue) (stored : s.fde node = some fde) (active : fde.active) :
    ∃ s', fdevent_remove platform s node = .ok s' ∧ s'.InSync platform (queue.erase node) ∧
      s'.view platform (queue.erase node) = (s.view platform queue).unwatch platform fde.fd.toNat := by
  let links := if fde.pending then (s.links.bypass node).clear node platform.null else s.links
  have code : fdevent_remove platform s node = .ok { s.unwatching node fde with
      links := links
      log := s.log ++ (s.view platform queue).closing platform fde.fd.toNat } := by
    rw [← sync.detach stored active links]
    by_cases pending : fde.pending
    · have inside := (sync.member node).mpr ⟨fde,stored,pending⟩
      simp only [fdevent_remove,State.load,stored,bind,Except.bind,if_pos pending,if_pos active,links,
        plist_remove_eq sync inside rfl fun _ alive => alive]
      rfl
    · simp only [fdevent_remove,State.load,stored,bind,Except.bind,if_neg pending,if_pos active,links]
      rfl
  have synced : State.InSync platform { s.unwatching node fde with links := links } (queue.erase node) := by
    by_cases pending : fde.pending
    · have left := sync.leave stored pending
      have there := @State.InSync.unwatching _ _ _ _ _ node fde.called _ left (by simp [State.store])
        (fde.called_sameWatch.active.mpr active) fde.called_idle
      simpa [links,pending,State.unwatching,State.store,Fdevent.called,Fdevent.removed] using there
    · have outside : node ∉ queue := by
        intro inside
        obtain ⟨record,record_stored,waits⟩ := (sync.member node).mp inside
        rw [stored] at record_stored
        exact pending (Option.some.inj record_stored ▸ waits)
      have there := sync.unwatching stored active pending
      rw [List.erase_of_not_mem outside]
      simp only [links,if_neg pending]
      exact there
  have distinct : queue.Nodup := (List.nodup_cons.mp sync.circle.distinct).2
  have others : (queue.erase node).map (s.store node fde.removed).notice = (queue.erase node).map s.notice := by
    apply List.map_congr_left
    intro other member
    rw [notice_store,if_neg fun same : other = node => distinct.not_mem_erase (same ▸ member)]
  refine ⟨_,code,synced.relog _,?_⟩
  simp only [Notices.unwatch,State.view]
  rw [sync.filter_notice stored active,← others,← sync.watched_unwatching stored active]
  rfl

end Libsme.Input.EventLoop
