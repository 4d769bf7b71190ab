import Libsme.Input.EventQueue

/-! The pointers, the table and the sets of the event loop stay in step with each other, and
together they are the descriptors watched and the queue of notices. -/
namespace Libsme.Input.EventLoop

section Flags
variable {x a b : Bits}

theorem or_and_apart (apart : a &&& b = 0#16) : (x ||| a) &&& b = x &&& b := by
  rw [BitVec.and_or_distrib_right,apart,BitVec.or_zero]

theorem and_and_inside (inside : a &&& b = b) : (x &&& a) &&& b = x &&& b := by
  rw [BitVec.and_assoc,inside]

theorem and_and_apart (apart : a &&& b = 0#16) : (x &&& a) &&& b = 0#16 := by
  rw [BitVec.and_assoc,apart,BitVec.and_zero]

theorem or_and_self (nonzero : a ≠ 0#16) : (x ||| a) &&& a ≠ 0#16 := by
  rw [BitVec.and_or_distrib_right,BitVec.and_self,ne_eq,BitVec.or_eq_zero_iff]
  exact fun both => nonzero both.2

/-- The flags of a state whose wanted events are replaced. -/
theorem replaced_and (flag : b &&& FDE_STATEMASK = b) : ((x &&& FDE_STATEMASK) ||| (a &&& FDE_EVENTMASK)) &&& b = x &&& b := by
  have apart : FDE_EVENTMASK &&& b = 0#16 := by
    rw [← flag,BitVec.and_comm b,← BitVec.and_assoc]
    exact BitVec.zero_and
  rw [BitVec.and_or_distrib_right,and_and_inside (by rw [BitVec.and_comm,flag]),and_and_apart apart,BitVec.or_zero]

theorem replaced_wanted : ((x &&& FDE_STATEMASK) ||| (a &&& FDE_EVENTMASK)) &&& FDE_EVENTMASK = a &&& FDE_EVENTMASK := by
  rw [BitVec.and_or_distrib_right,and_and_apart (by decide),and_and_inside (by decide),BitVec.zero_or]

end Flags

variable {Ptr Callback : Type} (platform : Platform Ptr)

structure Fdevent.Proper (fde : Fdevent Callback) : Prop where
  events : fde.pending ↔ fde.events ≠ 0#16
  idle : ¬fde.active → fde.state = 0#16

namespace State
variable (s : State Ptr Callback)

def watcher (fd : Nat) : Option (Fdevent Callback) :=
  if fd < platform.slots ∧ fd < s.fd_table_max then (s.fd_table fd).bind s.fde else none

def watched (fd : Nat) : Option (Callback × Bits) := (s.watcher platform fd).map fun fde => (fde.func,fde.wanted)

def notice (node : Ptr) : Nat × Bits :=
  match s.fde node with
  | some fde => (fde.fd.toNat,fde.events)
  | none => (0,0#16)

def view (queue : List Ptr) : Notices Callback := ⟨s.watched platform,queue.map s.notice,s.log⟩

def installed (node : Ptr) : Prop := ∃ fde, s.fde node = some fde ∧ fde.active

/-- list_pending links the pending fdevents in `queue`, the table has the active ones, and
the sets have what those want. -/
structure InSync (queue : List Ptr) : Prop where
  circle : s.links.Circle platform.list queue
  head : s.fde platform.list = none
  member : ∀ node, node ∈ queue ↔ ∃ fde, s.fde node = some fde ∧ fde.pending
  proper : ∀ node fde, s.fde node = some fde → fde.Proper
  inside : ∀ node fde, s.fde node = some fde → fde.active → 0 ≤ fde.fd ∧ fde.fd < s.select_n
  slot : ∀ fd < platform.slots, fd < s.fd_table_max → ∀ node,
    s.fd_table fd = some node ↔ ∃ fde, s.fde node = some fde ∧ fde.active ∧ fde.fd = fd
  reading : ∀ fd, s.read_fds fd = wants (s.watched platform) platform.FDE_READ fd
  writing : ∀ fd, s.write_fds fd = wants (s.watched platform) platform.FDE_WRITE fd
  failing : ∀ fd, s.error_fds fd = wants (s.watched platform) platform.FDE_ERROR fd
  covered : s.select_n ≤ platform.slots ∧ s.select_n ≤ s.fd_table_max
  table : s.fd_table_max = 0 ∨ 256 ≤ s.fd_table_max

end State

section Sync
variable {platform} {s : State Ptr Callback} {queue : List Ptr} {node : Ptr} {fde : Fdevent Callback}

theorem slots_le : platform.slots ≤ 256 := by
  refine Nat.div_le_of_le_mul ?_
  exact Nat.mul_le_mul_right 256 platform.pointer

theorem initial_inSync : (initial platform Callback).InSync platform [] where
  circle := ⟨by simp,rfl,rfl⟩
  head := rfl
  member := by simp [initial]
  proper := by simp [initial]
  inside := by simp [initial]
  slot := by simp [initial]
  reading := by simp [initial,wants,State.watched,State.watcher]
  writing := by simp [initial,wants,State.watched,State.watcher]
  failing := by simp [initial,wants,State.watched,State.watcher]
  covered := ⟨Nat.zero_le _,Nat.le_refl _⟩
  table := .inl rfl

namespace State.InSync

theorem fd_eq (sync : s.InSync platform queue) (stored : s.fde node = some fde) (active : fde.active) :
    ∃ fd : Nat, fde.fd = fd ∧ fd < s.select_n ∧ s.fd_table fd = some node := by
  obtain ⟨nonneg,less⟩ := sync.inside node fde stored active
  obtain ⟨fd,same⟩ := Int.eq_ofNat_of_zero_le nonneg
  have bound : fd < s.select_n := by omega
  have slot := (sync.slot fd (by have := sync.covered.1; omega) (by have := sync.covered.2; omega) node).mpr
    ⟨fde,stored,active,same⟩
  exact ⟨fd,same,bound,slot⟩

theorem watcher_eq (sync : s.InSync platform queue) (stored : s.fde node = some fde) (active : fde.active) :
    s.watcher platform fde.fd.toNat = some fde := by
  obtain ⟨fd,same,bound,slot⟩ := sync.fd_eq stored active
  have low : fd < platform.slots ∧ fd < s.fd_table_max := by
    have := sync.covered
    omega
  rw [State.watcher,same,Int.toNat_natCast,if_pos low,slot,Option.bind_some,stored]

theorem unwatched (sync : s.InSync platform queue) {fd : Nat} (beyond : s.select_n ≤ fd) :
    s.watched platform fd = none := by
  rw [State.watched,Option.map_eq_none_iff,State.watcher]
  split
  · rename_i low
    cases slot : s.fd_table fd with
    | none => rfl
    | some node =>
      obtain ⟨fde,stored,active,same⟩ := (sync.slot fd low.1 low.2 node).mp slot
      have := (sync.inside node fde stored active).2
      omega
  · rfl

theorem active_of_pending (sync : s.InSync platform queue) (stored : s.fde node = some fde) (pending : fde.pending) :
    fde.active := by
  by_contra inactive
  rw [Fdevent.pending,(sync.proper node fde stored).idle inactive,BitVec.zero_and] at pending
  exact pending rfl

theorem notice_fst (sync : s.InSync platform queue) (stored : s.fde node = some fde) (active : fde.active)
    {other : Ptr} (two : s.installed other) : (s.notice other).1 = fde.fd.toNat ↔ other = node := by
  obtain ⟨record,there,lives⟩ := two
  obtain ⟨fd,fd_eq,_,slot⟩ := sync.fd_eq stored active
  obtain ⟨fd',fd_eq',_,slot'⟩ := sync.fd_eq there lives
  constructor
  · intro same
    have same : fd' = fd := by simpa [State.notice,there,fd_eq,fd_eq'] using same
    rw [same,slot] at slot'
    exact (Option.some.inj slot').symm
  · rintro rfl
    simp [State.notice,stored]

theorem installed (sync : s.InSync platform queue) (inside : node ∈ queue) : s.installed node := by
  obtain ⟨fde,stored,pending⟩ := (sync.member node).mp inside
  exact ⟨fde,stored,sync.active_of_pending stored pending⟩

theorem relog (sync : s.InSync platform queue) (log : List (Effect Callback)) :
    State.InSync platform { s with log := log } queue :=
  ⟨sync.circle,sync.head,sync.member,sync.proper,sync.inside,sync.slot,sync.reading,sync.writing,sync.failing,
    sync.covered,sync.table⟩

theorem watched_eq (sync : s.InSync platform queue) (stored : s.fde node = some fde) (active : fde.active) :
    s.watched platform fde.fd.toNat = some (fde.func,fde.wanted) := by
  rw [State.watched,sync.watcher_eq stored active,Option.map_some]

theorem toNat_fd (sync : s.InSync platform queue) (stored : s.fde node = some fde) (active : fde.active) :
    (fde.fd.toNat : Int) = fde.fd := Int.toNat_of_nonneg (sync.inside node fde stored active).1

end State.InSync

/-- What the table and the sets know of an fdevent. -/
structure Fdevent.SameWatch (fde other : Fdevent Callback) : Prop where
  fd : other.fd = fde.fd
  func : other.func = fde.func
  active : other.active ↔ fde.active
  wanted : other.wanted = fde.wanted

variable [DecidableEq Ptr] {new : Fdevent Callback}

theorem State.InSync.linkable (sync : s.InSync platform queue) (near : node ∈ platform.list::queue) : s.linkable platform node := by
  rcases List.mem_cons.mp near with rfl | inside
  · simp [State.linkable]
  · obtain ⟨fde,stored,_⟩ := (sync.member node).mp inside
    simp [State.linkable,stored]

theorem Fdevent.SameWatch.trans {one two three : Fdevent Callback} (first : one.SameWatch two) (second : two.SameWatch three) :
    one.SameWatch three :=
  ⟨second.fd.trans first.fd,second.func.trans first.func,second.active.trans first.active,second.wanted.trans first.wanted⟩

theorem watched_store (stored : s.fde node = some fde) (same : fde.SameWatch new) :
    (s.store node new).watched platform = s.watched platform := by
  funext fd
  rw [State.watched,State.watched]
  by_cases low : fd < platform.slots ∧ fd < s.fd_table_max
  · have still : fd < platform.slots ∧ fd < (s.store node new).fd_table_max := low
    rw [State.watcher,State.watcher,if_pos low,if_pos still,State.store]
    cases s.fd_table fd with
    | none => rfl
    | some other =>
      by_cases here : other = node
      · subst here
        simp [stored,same.func,same.wanted]
      · simp [here]
  · have still : ¬(fd < platform.slots ∧ fd < (s.store node new).fd_table_max) := low
    rw [State.watcher,State.watcher,if_neg low,if_neg still]

theorem notice_store (other : Ptr) :
    (s.store node new).notice other = if other = node then (new.fd.toNat,new.events) else s.notice other := by
  by_cases here : other = node
  · subst here
    simp [State.notice,State.store]
  · simp [State.notice,State.store,here]

theorem notice_store_same (stored : s.fde node = some fde) (fd : new.fd = fde.fd) (events : new.events = fde.events) :
    (s.store node new).notice = s.notice := by
  funext other
  rw [notice_store]
  by_cases here : other = node
  · subst here
    simp [State.notice,stored,fd,events]
  · rw [if_neg here]

/-- A new record of a stored fdevent that is watched as before, with the list brought up
to date. -/
theorem State.InSync.replace (sync : s.InSync platform queue) (stored : s.fde node = some fde)
    (same : fde.SameWatch new) (proper : new.Proper) {links : Links Ptr} {nodes : List Ptr}
    (circle : links.Circle platform.list nodes)
    (member : ∀ other, other ∈ nodes ↔ if other = node then new.pending else other ∈ queue) :
    State.InSync platform { s.store node new with links := links } nodes := by
  have head : platform.list ≠ node := by
    rintro rfl
    simp [sync.head] at stored
  have watched : State.watched platform { s.store node new with links := links } = s.watched platform :=
    watched_store stored same
  refine ⟨circle,?_,?_,?_,?_,?_,?_,?_,?_,sync.covered,sync.table⟩
  · exact (Function.update_of_ne head _ _).trans sync.head
  · intro other
    by_cases here : other = node
    · subst here
      simp [member,State.store]
    · simp [member,State.store,here,sync.member]
  · intro other record there
    by_cases here : other = node
    · subst here
      have equal : record = new := by simpa [State.store,eq_comm] using there
      exact equal ▸ proper
    · exact sync.proper other record (by simpa [State.store,here] using there)
  · intro other record there active
    by_cases here : other = node
    · subst here
      have equal : record = new := by simpa [State.store,eq_comm] using there
      subst equal
      exact same.fd ▸ sync.inside other fde stored (same.active.mp active)
    · exact sync.inside other record (by simpa [State.store,here] using there) active
  · intro fd low bound other
    rw [show (State.fd_table { s.store node new with links := links }) = s.fd_table from rfl,sync.slot fd low bound]
    by_cases here : other = node
    · subst here
      simp [State.store,stored,same.active,same.fd]
    · simp [State.store,here]
  · exact fun fd => watched ▸ sync.reading fd
  · exact fun fd => watched ▸ sync.writing fd
  · exact fun fd => watched ▸ sync.failing fd

theorem State.InSync.store (sync : s.InSync platform queue) (stored : s.fde node = some fde)
    (same : fde.SameWatch new) (proper : new.Proper) (pending : new.pending ↔ fde.pending) :
    (s.store node new).InSync platform queue := by
  apply sync.replace stored same proper sync.circle
  intro other
  by_cases here : other = node
  · subst here
    simp [sync.member,stored,pending]
  · simp [here]

theorem State.InSync.enqueue (sync : s.InSync platform queue) (stored : s.fde node = some fde)
    (idle : ¬fde.pending) (same : fde.SameWatch new) (proper : new.Proper) (pending : new.pending) :
    let s' := { s.store node new with links := s.links.enqueue platform.list node }
    fdevent_plist_enqueue platform (s.store node new) node = .ok s' ∧ s'.InSync platform (queue ++ [node]) := by
  have outside : node ∉ queue := by
    intro inside
    obtain ⟨record,there,waits⟩ := (sync.member node).mp inside
    rw [stored] at there
    exact idle (Option.some.inj there ▸ waits)
  have apart : node ≠ platform.list := by
    rintro rfl
    simp [sync.head] at stored
  have writable : (s.store node new).linkable platform (s.links.prev platform.list) := by
    have before := sync.linkable (sync.circle.prev_mem List.mem_cons_self)
    by_cases here : s.links.prev platform.list = node
    · simp [State.linkable,State.store,here]
    · simpa [State.linkable,State.store,here] using before
  refine ⟨if_pos writable,sync.replace stored same proper (sync.circle.enqueue ?_) ?_⟩
  · simp [apart,outside]
  · intro other
    by_cases here : other = node <;> simp [here,pending]

theorem plist_remove_eq (sync : s.InSync platform queue) (inside : node ∈ queue) {other : State Ptr Callback}
    (links : other.links = s.links) (alive : ∀ near, (s.fde near).isSome → (other.fde near).isSome) :
    fdevent_plist_remove platform other node =
      .ok { other with links := (s.links.bypass node).clear node platform.null } := by
  have near : ∀ near ∈ platform.list::queue, other.linkable platform near := by
    intro near member
    have before := sync.linkable member
    simp only [State.linkable,Bool.or_eq_true,decide_eq_true_eq] at before ⊢
    exact before.imp id (alive near)
  have member : node ∈ platform.list::queue := List.mem_cons_of_mem _ inside
  rw [fdevent_plist_remove,links,if_pos]
  exact ⟨near _ (sync.circle.prev_mem member),near _ (sync.circle.next_mem member)⟩

theorem State.InSync.dequeue {rest : List Ptr} (sync : s.InSync platform (node::rest)) :
    fdevent_plist_dequeue platform s =
      .ok ({ s with links := (s.links.bypass node).clear node platform.null },some node) := by
  have first : s.links.next platform.list = node := sync.circle.next_head
  have apart : node ≠ platform.list := by
    rintro rfl
    exact (List.nodup_cons.mp sync.circle.distinct).1 List.mem_cons_self
  obtain ⟨fde,stored,_⟩ := sync.installed List.mem_cons_self
  have next := sync.linkable (sync.circle.next_mem (List.mem_cons_of_mem _ List.mem_cons_self))
  have behead := sync.circle.behead
  simp only [fdevent_plist_dequeue,first,if_neg apart,stored,behead]
  rw [if_pos]
  exact ⟨rfl,next⟩

theorem State.InSync.dequeue_none (sync : s.InSync platform []) : fdevent_plist_dequeue platform s = .ok (s,none) := by
  have first : s.links.next platform.list = platform.list := sync.circle.next_head
  simp [fdevent_plist_dequeue,first]

theorem State.store_store (first : Fdevent Callback) : (s.store node first).store node new = s.store node new := by
  simp [State.store]

/-- What fdevent_call_fdfunc makes of a pending fdevent. -/
def Fdevent.called (fde : Fdevent Callback) : Fdevent Callback :=
  { fde with state := fde.state &&& ~~~FDE_PENDING, events := 0#16 }

theorem Fdevent.called_sameWatch (fde : Fdevent Callback) : fde.SameWatch fde.called := by
  refine ⟨rfl,rfl,?_,?_⟩
  · rw [Fdevent.active,Fdevent.active,Fdevent.called,and_and_inside (by decide)]
  · rw [Fdevent.wanted,Fdevent.wanted,Fdevent.called,and_and_inside (by decide)]

theorem Fdevent.called_idle (fde : Fdevent Callback) : ¬fde.called.pending := by
  rw [Fdevent.pending,Fdevent.called,and_and_apart (by decide)]
  simp

theorem Fdevent.called_proper (proper : fde.Proper) : fde.called.Proper := by
  refine ⟨?_,?_⟩
  · simp only [fde.called_idle,false_iff]
    simp [Fdevent.called]
  · intro inactive
    have idle := proper.idle fun active => inactive (fde.called_sameWatch.active.mpr active)
    simp [Fdevent.called,idle]

theorem State.InSync.leave (sync : s.InSync platform queue) (stored : s.fde node = some fde) (pending : fde.pending) :
    State.InSync platform { s.store node fde.called with links := (s.links.bypass node).clear node platform.null }
      (queue.erase node) := by
  have inside := (sync.member node).mpr ⟨fde,stored,pending⟩
  have distinct : queue.Nodup := (List.nodup_cons.mp sync.circle.distinct).2
  apply sync.replace stored fde.called_sameWatch (Fdevent.called_proper (sync.proper node fde stored))
    (sync.circle.remove inside)
  intro other
  by_cases here : other = node
  · simp [here,fde.called_idle,distinct.not_mem_erase]
  · simp [here,List.mem_erase_of_ne]

theorem call_fdfunc_eq (stored : s.fde node = some fde) (pending : fde.pending) :
    fdevent_call_fdfunc s node = .ok ((s.store node fde.called).emit (.call fde.func fde.fd fde.events)) := by
  have again : fdevent_call_fdfunc s node = .ok (((s.store node { fde with events := 0#16 }).store node fde.called).emit
      (.call fde.func fde.fd fde.events)) := by
    simp [fdevent_call_fdfunc,State.load,stored,pending,Fdevent.called,bind,Except.bind]
  rw [again,State.store_store]

theorem State.InSync.call {rest : List Ptr} (sync : s.InSync platform (node::rest)) (select : Select) (bad : Nat → Bool) :
    ∃ s', turn platform s select bad = .ok s' ∧ s'.InSync platform rest ∧
      s'.view platform rest = (s.view platform (node::rest)).turn platform select bad := by
  obtain ⟨fde,stored,pending⟩ := (sync.member node).mp List.mem_cons_self
  have active := sync.active_of_pending stored pending
  have fresh : node ∉ rest := (List.nodup_cons.mp (List.nodup_cons.mp sync.circle.distinct).2).1
  have synced := sync.leave stored pending
  rw [List.erase_cons_head] at synced
  refine ⟨_,?_,synced.relog (s.log ++ [.call fde.func fde.fd fde.events]),?_⟩
  · simp only [turn,sync.dequeue,bind,Except.bind]
    exact call_fdfunc_eq stored pending
  · have others : rest.map (s.store node fde.called).notice = rest.map s.notice := by
      apply List.map_congr_left
      intro other inside
      rw [notice_store,if_neg fun same : other = node => fresh (same ▸ inside)]
    have first : s.notice node = (fde.fd.toNat,fde.events) := by simp [State.notice,stored]
    have same := @watched_store _ _ platform s node fde _ fde.called stored fde.called_sameWatch
    simp only [State.view,Notices.turn,List.map_cons,first,Notices.calling,sync.watched_eq stored active,
      sync.toNat_fd stored active]
    rw [← same,← others]
    rfl

end Sync
end Libsme.Input.EventLoop
