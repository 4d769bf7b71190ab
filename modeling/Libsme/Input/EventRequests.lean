import Libsme.Input.EventCalls

/-! New fdevents, the handler of a shell's exit, and whole runs: as long as fdevents are
installed on free descriptors in the cleared part of the table and used while they are
installed, the loop never stops and does what its requests say. -/
namespace Libsme.Input.EventLoop

variable {Ptr Callback : Type} {platform : Platform Ptr} {s : State Ptr Callback} {queue : List Ptr} {node : Ptr}
  {fde : Fdevent Callback}

theorem watched_of_empty (empty : s.fd_table_max = 0) : s.watched platform = fun _ => none := by
  funext fd
  simp [State.watched,State.watcher,empty]

def State.made (s : State Ptr Callback) (platform : Platform Ptr) (memory : Nat → Option Ptr) : State Ptr Callback :=
  { fdevent_init s with
    fd_table_max := 256
    fd_table := fun i => if i < platform.slots then none else memory i }

theorem State.InSync.made (sync : s.InSync platform queue) (empty : s.fd_table_max = 0) (memory : Nat → Option Ptr) :
    (s.made platform memory).InSync platform queue ∧ (s.made platform memory).watched platform = s.watched platform := by
  have unwatched : (s.made platform memory).watched platform = s.watched platform := by
    rw [watched_of_empty empty]
    funext fd
    rw [State.watched,State.watcher]
    split
    · rename_i low
      simp [State.made,low.1]
    · rfl
  have none_selected : s.select_n = 0 := by
    have := sync.covered.2
    omega
  have none_active : ∀ node fde, s.fde node = some fde → ¬fde.active := by
    intro node fde stored active
    have bounds := sync.inside node fde stored active
    rw [none_selected] at bounds
    omega
  refine ⟨⟨sync.circle,sync.head,sync.member,sync.proper,?_,?_,?_,?_,?_,?_,.inr (Nat.le_refl 256)⟩,unwatched⟩
  · exact fun node fde stored active => absurd active (none_active node fde stored)
  · intro fd low _ node
    refine iff_of_false (by simp [State.made,low]) ?_
    rintro ⟨fde,stored,active,_⟩
    exact none_active node fde stored active
  · intro fd
    rw [unwatched,watched_of_empty empty]
    rfl
  · intro fd
    rw [unwatched,watched_of_empty empty]
    rfl
  · intro fd
    rw [unwatched,watched_of_empty empty]
    rfl
  · have selected : (s.made platform memory).select_n = 0 := none_selected
    rw [selected]
    exact ⟨Nat.zero_le _,Nat.zero_le _⟩

theorem State.InSync.outside (sync : s.InSync platform queue) (fresh : ¬s.installed node) : node ∉ queue :=
  fun inside => fresh (sync.installed inside)

theorem State.InSync.slot_fde (sync : s.InSync platform queue) {fd : Nat} (low : fd < platform.slots)
    (room : fd < s.fd_table_max) (slot : s.fd_table fd = some node) :
    ∃ fde, s.fde node = some fde ∧ fde.active ∧ fde.fd = fd := (sync.slot fd low room node).mp slot

theorem State.InSync.watched_iff (sync : s.InSync platform queue) {fd : Nat} :
    (s.watched platform fd).isSome ↔ fd < platform.slots ∧ fd < s.fd_table_max ∧ (s.fd_table fd).isSome := by
  rw [State.watched,Option.isSome_map,State.watcher]
  split
  · rename_i low
    cases slot : s.fd_table fd with
    | none => simp
    | some node =>
      obtain ⟨fde,stored,_⟩ := sync.slot_fde low.1 low.2 slot
      simp [stored,low]
  · rename_i high
    exact iff_of_false (by simp) fun all => high ⟨all.1,all.2.1⟩

variable [DecidableEq Ptr]

/-- What an owner keeps to: storage that is not in use, and a free descriptor whose slot
memset clears. -/
structure Free (platform : Platform Ptr) (s : State Ptr Callback) (node : Ptr) (fd : Int)
    (memory : Option (Nat → Option Ptr)) : Prop where
  unlisted : node ≠ platform.list
  stored : node ≠ platform.null
  fresh : ¬s.installed node
  low : 0 ≤ fd ∧ fd < platform.slots
  unused : fd.toNat < s.fd_table_max → s.fd_table fd.toNat = none
  memory : memory.isSome

def Fdevent.fresh (fd : Int) (func : Callback) : Fdevent Callback :=
  { fd := fd, force_eof := false, state := FDE_ACTIVE ||| FDE_ACTIVE, events := 0#16, func := func }

/-- The state after fdevent_install where the table has room. -/
def State.watching (s : State Ptr Callback) (platform : Platform Ptr) (node : Ptr) (fd : Nat) (func : Callback) :
    State Ptr Callback :=
  { s.store node (Fdevent.fresh fd func) with
    links := s.links.clear node platform.null
    fd_table := Function.update s.fd_table fd (some node)
    select_n := if s.select_n ≤ fd then fd+1 else s.select_n
    log := s.log ++ [.nonblock fd] }

theorem doubled_of_lt {fd max : Nat} (turns : Nat) (room : fd < max) : doubled fd turns max = max := by
  cases turns with
  | zero => rfl
  | succ turns => rw [doubled,if_neg (Nat.not_le_of_lt room)]

theorem State.InSync.install_eq (sync : s.InSync platform queue) {fd : Nat} (func : Callback)
    {memory : Option (Nat → Option Ptr)} (free : Free platform s node fd memory) :
    ∃ base : State Ptr Callback, fdevent_install platform s node fd func memory =
        .ok (base.watching platform node fd func) ∧ base.InSync platform queue ∧
      base.view platform queue = s.view platform queue ∧ base.fde = s.fde ∧ fd < base.fd_table_max ∧
      base.fd_table fd = none := by
  have low : fd < platform.slots := by
    have := free.low.2
    omega
  have few := @slots_le _ platform
  have nonneg : ¬(fd : Int) < 0 := by omega
  by_cases room : fd < s.fd_table_max
  · refine ⟨s,?_,sync,rfl,rfl,room,free.unused room⟩
    by_cases extends_set : s.select_n ≤ fd
    · have extends_int : (s.select_n : Int) ≤ fd := by omega
      simp [fdevent_install,fdevent_register,nonneg,bind,Except.bind,State.store,State.emit,room,fdevent_connect,
        State.watching,Fdevent.fresh,extends_set]
    · have extends_int : ¬(s.select_n : Int) ≤ fd := by omega
      simp [fdevent_install,fdevent_register,nonneg,bind,Except.bind,State.store,State.emit,room,fdevent_connect,
        State.watching,Fdevent.fresh,extends_set]
  · have empty : s.fd_table_max = 0 := sync.table.resolve_right fun some_table => room (by omega)
    obtain ⟨memory,rfl⟩ := Option.isSome_iff_exists.mp free.memory
    obtain ⟨synced,unwatched⟩ := sync.made empty memory
    have small : ¬32000 < fd := by omega
    have max : doubled fd fd 256 = 256 := doubled_of_lt fd (by omega)
    refine ⟨s.made platform memory,?_,synced,?_,rfl,?_,?_⟩
    · have extends_set : s.select_n ≤ fd := by
        have := sync.covered.2
        omega
      have extends_int : (s.select_n : Int) ≤ fd := by omega
      simp [fdevent_install,fdevent_register,nonneg,bind,Except.bind,State.store,State.emit,empty,grow,small,max,
        fdevent_init,fdevent_connect,State.watching,State.made,Fdevent.fresh,extends_set,Platform.slots]
      congr
    · rw [State.view,State.view,unwatched]
      rfl
    · exact Nat.lt_of_lt_of_le low few
    · exact if_pos low

theorem Fdevent.fresh_active (fd : Int) (func : Callback) : (Fdevent.fresh fd func).active := by
  simp [Fdevent.active,Fdevent.fresh,FDE_ACTIVE]

theorem Fdevent.fresh_idle (fd : Int) (func : Callback) : ¬(Fdevent.fresh fd func).pending := by
  simp [Fdevent.pending,Fdevent.fresh,FDE_ACTIVE,FDE_PENDING]

theorem Fdevent.fresh_wanted (fd : Int) (func : Callback) : (Fdevent.fresh fd func).wanted = 0#16 := by
  simp [Fdevent.wanted,Fdevent.fresh,FDE_ACTIVE,FDE_EVENTMASK]

section Watching
variable {fd : Nat} (sync : s.InSync platform queue) (fresh : ¬s.installed node)
  (low : fd < platform.slots ∧ fd < s.fd_table_max) (unused : s.fd_table fd = none) (func : Callback)
include sync fresh low unused

theorem State.InSync.watched_watching : (s.watching platform node fd func).watched platform =
    Function.update (s.watched platform) fd (some (func,0#16)) := by
  funext other
  by_cases here : other = fd
  · subst here
    have still : other < platform.slots ∧ other < (s.watching platform node other func).fd_table_max := low
    rw [Function.update_self,State.watched,State.watcher,if_pos still]
    simp [State.watching,State.store,Fdevent.fresh_wanted]
    rfl
  · rw [Function.update_of_ne here,State.watched,State.watched]
    by_cases inside : other < platform.slots ∧ other < s.fd_table_max
    · have still : other < platform.slots ∧ other < (s.watching platform node fd func).fd_table_max := inside
      rw [State.watcher,State.watcher,if_pos inside,if_pos still]
      cases slot : s.fd_table other with
      | none => simp [State.watching,State.store,here,slot]
      | some near =>
        have unlike : near ≠ node := by
          rintro rfl
          obtain ⟨record,stored,active,_⟩ := (sync.slot other inside.1 inside.2 near).mp slot
          exact fresh ⟨record,stored,active⟩
        simp [State.watching,State.store,here,slot,unlike]
    · have still : ¬(other < platform.slots ∧ other < (s.watching platform node fd func).fd_table_max) := inside
      rw [State.watcher,State.watcher,if_neg inside,if_neg still]

theorem State.InSync.watching (unlisted : node ≠ platform.list) :
    (s.watching platform node fd func).InSync platform queue := by
  have watched := State.InSync.watched_watching sync fresh low unused func
  have fds : (s.watching platform node fd func).fde = Function.update s.fde node (some (Fdevent.fresh fd func)) := rfl
  have outside := sync.outside fresh
  have active := Fdevent.fresh_active fd func
  have unwatched : s.watched platform fd = none := by
    rw [State.watched,State.watcher,if_pos low,unused]
    rfl
  have mirrored : ∀ (mask : Bits) (sets : Nat → Bool), (∀ fd, sets fd = wants (s.watched platform) mask fd) →
      ∀ other, sets other = wants ((s.watching platform node fd func).watched platform) mask other := by
    intro mask sets mirrors other
    rw [watched,mirrors]
    by_cases here : other = fd
    · subst here
      simp [wants,unwatched]
    · simp [wants,here]
  refine ⟨?_,?_,?_,?_,?_,?_,?_,?_,?_,?_,sync.table⟩
  · exact sync.circle.clear (by simp [unlisted,outside])
  · rw [fds,Function.update_of_ne unlisted.symm]
    exact sync.head
  · intro other
    rw [fds]
    by_cases here : other = node
    · subst here
      simp [outside,Fdevent.fresh_idle]
    · simp [sync.member,here]
  · intro other record there
    rw [fds] at there
    by_cases here : other = node
    · subst here
      have equal : Fdevent.fresh fd func = record := by simpa using there
      exact equal ▸ ⟨iff_of_false (Fdevent.fresh_idle fd func) (by simp [Fdevent.fresh]),fun idle => absurd active idle⟩
    · exact sync.proper other record (by simpa [here] using there)
  · intro other record there lives
    rw [fds] at there
    by_cases here : other = node
    · subst here
      have equal : Fdevent.fresh fd func = record := by simpa using there
      rw [← equal]
      simp only [Fdevent.fresh,State.watching]
      split <;> omega
    · have bounds := sync.inside other record (by simpa [here] using there) lives
      simp only [State.watching]
      split <;> omega
  · intro other inside bound near
    rw [fds]
    by_cases here : other = fd
    · subst here
      have slot : (s.watching platform node other func).fd_table other = some node := by simp [State.watching]
      rw [slot]
      by_cases again : near = node
      · subst again
        exact iff_of_true rfl ⟨Fdevent.fresh other func,by simp,active,rfl⟩
      · refine iff_of_false (fun same => again (Option.some.inj same).symm) ?_
        rintro ⟨record,there,lives,same⟩
        have taken := (sync.slot other inside bound near).mpr ⟨record,by simpa [again] using there,lives,same⟩
        rw [unused] at taken
        exact absurd taken (by simp)
    · have kept : (s.watching platform node fd func).fd_table other = s.fd_table other := by simp [State.watching,here]
      rw [kept,sync.slot other inside bound near]
      by_cases again : near = node
      · subst again
        have unlike : ¬fd = other := fun same => here same.symm
        refine iff_of_false ?_ (by simp [Fdevent.fresh,unlike])
        rintro ⟨record,there,lives,_⟩
        exact fresh ⟨record,there,lives⟩
      · simp [again]
  · exact mirrored platform.FDE_READ s.read_fds sync.reading
  · exact mirrored platform.FDE_WRITE s.write_fds sync.writing
  · exact mirrored platform.FDE_ERROR s.error_fds sync.failing
  · have covered := sync.covered
    simp only [State.watching]
    split <;> exact ⟨by omega,by change _ ≤ s.fd_table_max; omega⟩

end Watching

theorem State.InSync.install (sync : s.InSync platform queue) {fd : Int} (func : Callback)
    {memory : Option (Nat → Option Ptr)} (free : Free platform s node fd memory) :
    ∃ s', fdevent_install platform s node fd func memory = .ok s' ∧ s'.InSync platform queue ∧
      s'.view platform queue = (s.view platform queue).step platform (.watch fd.toNat func) ∧
      s'.fde node = some (Fdevent.fresh fd func) := by
  obtain ⟨fd,rfl⟩ := Int.eq_ofNat_of_zero_le free.low.1
  obtain ⟨base,installed,synced,view,fds,room,unused⟩ := sync.install_eq func free
  have low : fd < platform.slots ∧ fd < base.fd_table_max := by
    have := free.low.2
    omega
  have fresh : ¬base.installed node := by
    have before := free.fresh
    simpa only [State.installed,fds] using before
  refine ⟨_,installed,synced.watching fresh low unused func free.unlisted,?_,?_⟩
  · have outside := synced.outside fresh
    have others : queue.map (base.watching platform node fd func).notice = queue.map base.notice := by
      apply List.map_congr_left
      intro other member
      exact (@notice_store _ _ base node _ (Fdevent.fresh fd func) other).trans
        (if_neg fun same : other = node => outside (same ▸ member))
    rw [← view]
    simp only [State.view,Notices.step,others,synced.watched_watching fresh low unused func]
    rfl
  · simp [State.watching,State.store]

/-- What closeSubproc does to the notices: it wakes a watched descriptor with nothing to read. -/
def waking (watched : Nat → Option (Callback × Bits)) (answer : Option (Int × Bool)) : List (Request Callback) :=
  match answer with
  | some (fd,false) => if 0 ≤ fd ∧ (watched fd.toNat).isSome then [.wake fd.toNat] else []
  | _ => []

def Notices.run (platform : Platform Ptr) (notices : Notices Callback) (requests : List (Request Callback)) :
    Notices Callback := requests.foldl (Notices.step platform) notices

def Fdevent.forced (fde : Fdevent Callback) : Fdevent Callback := { fde with force_eof := true }

theorem Fdevent.forced_sameWatch (fde : Fdevent Callback) : fde.SameWatch fde.forced := ⟨rfl,rfl,Iff.rfl,rfl⟩

theorem State.InSync.wakeNode (sync : s.InSync platform queue) (stored : s.fde node = some fde) (active : fde.active) :
    ∃ s',
      (if fde.pending then .ok (s.store node { fde.forced with events := fde.events ||| platform.FDE_READ })
        else fdevent_call_fdfunc (s.store node (fde.forced.noticed (fde.events ||| platform.FDE_READ))) node) =
        .ok s' ∧ s'.InSync platform queue ∧
      s'.view platform queue = (s.view platform queue).wake platform fde.fd.toNat := by
  have first : s.notice node = (fde.fd.toNat,fde.events) := by simp [State.notice,stored]
  by_cases pending : fde.pending
  · have inside := (sync.member node).mpr ⟨fde,stored,pending⟩
    have listed : fde.fd.toNat ∈ (s.view platform queue).queue.map Prod.fst := by
      rw [State.view,List.map_map]
      exact List.mem_map.mpr ⟨node,inside,by simp [first]⟩
    have some_event : fde.events ||| platform.FDE_READ ≠ 0#16 := by
      rw [ne_eq,BitVec.or_eq_zero_iff]
      exact fun both => (sync.proper node fde stored).events.mp pending both.1
    rw [if_pos pending]
    have same : fde.SameWatch { fde.forced with events := fde.events ||| platform.FDE_READ } := ⟨rfl,rfl,Iff.rfl,rfl⟩
    refine ⟨_,rfl,sync.store stored same ?_ Iff.rfl,?_⟩
    · exact ⟨iff_of_true pending some_event,fun inactive => absurd active inactive⟩
    · have marked : queue.map (s.store node { fde.forced with events := fde.events ||| platform.FDE_READ }).notice =
          (queue.map s.notice).map (Notices.readable platform fde.fd.toNat) := by
        rw [List.map_map]
        apply List.map_congr_left
        intro other member
        have fst := sync.notice_fst stored active (sync.installed member)
        rw [notice_store]
        rcases eq_or_ne other node with rfl | unlike
        · simp [Notices.readable,first,Fdevent.forced]
        · have apart : (s.notice other).1 ≠ fde.fd.toNat := fun equal => unlike (fst.mp equal)
          simp [Notices.readable,unlike,apart]
      rw [Notices.wake,if_pos listed]
      simp only [State.view,marked,watched_store stored same]
      rfl
  · have outside : node ∉ queue := by
      intro inside
      obtain ⟨record,record_stored,waits⟩ := (sync.member node).mp inside
      rw [stored] at record_stored
      exact pending (Option.some.inj record_stored ▸ waits)
    have unlisted : fde.fd.toNat ∉ (s.view platform queue).queue.map Prod.fst := by
      rw [State.view,List.map_map,List.mem_map]
      rintro ⟨other,member,same⟩
      have here := (sync.notice_fst stored active (sync.installed member)).mp same
      exact outside (here ▸ member)
    have no_events : fde.events = 0#16 := by
      by_contra some_event
      exact pending ((sync.proper node fde stored).events.mpr some_event)
    rw [if_neg pending,no_events,BitVec.zero_or]
    let marked := fde.forced.noticed platform.FDE_READ
    have same : fde.SameWatch marked.called :=
      (fde.forced_sameWatch.trans (fde.forced.noticed_sameWatch platform.FDE_READ)).trans marked.called_sameWatch
    have there : (s.store node marked).fde node = some marked := by simp [State.store]
    have called := call_fdfunc_eq there (fde.forced.noticed_pending platform.FDE_READ)
    rw [State.store_store] at called
    have synced : (s.store node marked.called).InSync platform queue := by
      apply sync.store stored same
      · exact Fdevent.called_proper (Fdevent.noticed_proper active platform.read)
      · exact iff_of_false marked.called_idle pending
    refine ⟨_,called,synced.relog _,?_⟩
    have notices := @notice_store_same _ _ s node fde _ marked.called stored rfl no_events.symm
    have calls : (s.view platform queue).calling fde.fd.toNat platform.FDE_READ =
        [.call fde.func fde.fd platform.FDE_READ] := by
      simp only [Notices.calling,State.view,sync.watched_eq stored active,sync.toNat_fd stored active]
    rw [Notices.wake,if_neg unlisted,calls]
    simp only [State.view]
    rw [← notices,← @watched_store _ _ platform s node fde _ marked.called stored same]
    rfl

/-- The fdevent of the shell is forced to its end, and woken unless its data will do that. -/
theorem State.InSync.closeSubproc (sync : s.InSync platform queue) {fd : Int} (low : fd < platform.slots) (rcount : Bool) :
    ∃ s', closeSubproc platform s (some (fd,rcount)) = .ok s' ∧ s'.InSync platform queue ∧
      s'.view platform queue = (s.view platform queue).run platform (waking (s.watched platform) (some (fd,rcount))) := by
  by_cases outside : fd < 0 ∨ (s.fd_table_max : Int) ≤ fd
  · have quiet : waking (s.watched platform) (some (fd,rcount)) = [] := by
      cases rcount with
      | true => rfl
      | false =>
        refine if_neg fun watched => ?_
        have room := (sync.watched_iff.mp watched.2).2.1
        omega
    rw [quiet]
    exact ⟨s,if_pos outside,sync,rfl⟩
  · obtain ⟨fd,rfl⟩ := Int.eq_ofNat_of_zero_le (by omega : 0 ≤ fd)
    have low : fd < platform.slots := by omega
    have room : fd < s.fd_table_max := by omega
    have watched := @sync.watched_iff _ _ _ _ _ fd
    cases slot : s.fd_table fd with
    | none =>
      have quiet : waking (s.watched platform) (some ((fd : Int),rcount)) = [] := by
        cases rcount with
        | true => rfl
        | false => exact if_neg fun all => by simpa [slot] using watched.mp all.2
      rw [quiet]
      refine ⟨s,?_,sync,rfl⟩
      simp [EventLoop.closeSubproc,slot]
    | some node =>
      obtain ⟨fde,stored,active,same⟩ := sync.slot_fde low room slot
      have is_watched : (s.watched platform fd).isSome := watched.mpr ⟨low,room,by simp [slot]⟩
      have code : EventLoop.closeSubproc platform s (some ((fd : Int),rcount)) =
          if rcount then .ok (s.store node fde.forced)
          else if fde.pending then .ok (s.store node { fde.forced with events := fde.events ||| platform.FDE_READ })
          else fdevent_call_fdfunc (s.store node (fde.forced.noticed (fde.events ||| platform.FDE_READ))) node := by
        have known : ¬fde.fd ≠ (fd : Int) := not_not.mpr same
        simp only [EventLoop.closeSubproc,if_neg outside,Int.toNat_natCast,slot,State.load,stored,bind,Except.bind,
          if_neg known]
        rfl
      rw [code]
      cases rcount with
      | true =>
        refine ⟨_,rfl,?_,?_⟩
        · have proper := sync.proper node fde stored
          exact sync.store stored fde.forced_sameWatch ⟨proper.events,proper.idle⟩ Iff.rfl
        · have notices := @notice_store_same _ _ s node fde _ fde.forced stored rfl rfl
          rw [State.view,notices,watched_store stored fde.forced_sameWatch]
          rfl
      | false =>
        obtain ⟨s',woken,synced,view⟩ := sync.wakeNode stored active
        refine ⟨s',woken,synced,?_⟩
        rw [view,same]
        simp [waking,is_watched,Notices.run,Notices.step]

/-- What a call is about in terms of descriptors. -/
def requests (platform : Platform Ptr) (s : State Ptr Callback) : Action Ptr Callback → List (Request Callback)
  | .install _ fd func _ => [.watch fd.toNat func]
  | .create none _ _ _ => []
  | .create (some _) fd func _ => [.watch fd.toNat func]
  | .remove node => [.unwatch (s.notice node).1]
  | .destroy none => []
  | .destroy (some node) => [.unwatch (s.notice node).1]
  | .set node events => [.want (s.notice node).1 fun _ => events]
  | .add node events => [.want (s.notice node).1 fun wanted => wanted ||| (events &&& FDE_EVENTMASK)]
  | .del node events => [.want (s.notice node).1 fun wanted => wanted &&& ~~~(events &&& FDE_EVENTMASK)]
  | .release _ => []
  | .subproc fd events answer =>
    .want fd.toNat (fun wanted => wanted ||| (platform.FDE_READ &&& FDE_EVENTMASK))::
      (if events &&& platform.FDE_READ = 0#16 then [] else waking (s.watched platform) answer)
  | .turn select bad => [.turn select bad]

/-- What the callers keep to. The handler of a shell's exit is called for a watched descriptor
and is sent a descriptor whose slot is cleared. -/
def Allowed (platform : Platform Ptr) (s : State Ptr Callback) : Action Ptr Callback → Prop
  | .install node fd _ memory => Free platform s node fd memory
  | .create none _ _ _ => True
  | .create (some node) fd _ memory => Free platform s node fd memory
  | .remove node => s.installed node
  | .destroy none => True
  | .destroy (some node) => ∃ fde, s.fde node = some fde ∧ fde.active ∧ fde.created
  | .set node _ => s.installed node
  | .add node _ => s.installed node
  | .del node _ => s.installed node
  | .release node => ¬s.installed node
  | .subproc fd events answer => 0 ≤ fd ∧ (s.watched platform fd.toNat).isSome ∧
    (events &&& platform.FDE_READ ≠ 0#16 → answer.isSome ∧ ∀ sent ∈ answer, sent.1 < platform.slots)
  | .turn _ _ => True

theorem State.InSync.create (sync : s.InSync platform queue) {fd : Int} (func : Callback)
    {memory : Option (Nat → Option Ptr)} (free : Free platform s node fd memory) :
    ∃ s', fdevent_create platform s (some node) fd func memory = .ok s' ∧ s'.InSync platform queue ∧
      s'.view platform queue = (s.view platform queue).step platform (.watch fd.toNat func) := by
  obtain ⟨base,installed,synced,view,there⟩ := sync.install func free
  let new : Fdevent Callback := { Fdevent.fresh fd func with state := (Fdevent.fresh fd func).state ||| FDE_CREATED }
  have same : (Fdevent.fresh fd func).SameWatch new := by
    refine ⟨rfl,rfl,?_,?_⟩
    · rw [Fdevent.active,Fdevent.active,or_and_apart (by decide)]
    · rw [Fdevent.wanted,Fdevent.wanted,or_and_apart (by decide)]
  have idle : ¬new.pending := by
    rw [Fdevent.pending,or_and_apart (by decide)]
    exact Fdevent.fresh_idle fd func
  refine ⟨base.store node new,?_,?_,?_⟩
  · simp only [fdevent_create,installed,bind,Except.bind,State.load,there,new]
  · apply synced.store there same
    · exact ⟨iff_of_false idle (by simp [new,Fdevent.fresh]),
        fun inactive => absurd (same.active.mpr (Fdevent.fresh_active fd func)) inactive⟩
    · exact iff_of_false idle (Fdevent.fresh_idle fd func)
  · have notices := @notice_store_same _ _ base node _ _ new there rfl rfl
    rw [← view,State.view,notices,watched_store there same]
    rfl

theorem State.InSync.release (sync : s.InSync platform queue) (unused : ¬s.installed node) :
    let s' := { s with fde := Function.update s.fde node none }
    s'.InSync platform queue ∧ s'.view platform queue = s.view platform queue := by
  have outside := sync.outside unused
  have watched : State.watched platform { s with fde := Function.update s.fde node none } = s.watched platform := by
    funext fd
    rw [State.watched,State.watched,State.watcher,State.watcher]
    by_cases low : fd < platform.slots ∧ fd < s.fd_table_max
    · rw [if_pos low,if_pos low]
      cases slot : s.fd_table fd with
      | none => rfl
      | some other =>
        have unlike : other ≠ node := by
          rintro rfl
          obtain ⟨fde,stored,active,_⟩ := sync.slot_fde low.1 low.2 slot
          exact unused ⟨fde,stored,active⟩
        simp [unlike]
    · rw [if_neg low,if_neg low]
  have kept : ∀ other fde, Function.update s.fde node none other = some fde → s.fde other = some fde := by
    intro other fde there
    by_cases here : other = node
    · simp [here] at there
    · simpa [here] using there
  have active_kept : ∀ other fde, s.fde other = some fde → fde.active →
      Function.update s.fde node none other = some fde := by
    intro other fde stored active
    have unlike : other ≠ node := by
      rintro rfl
      exact unused ⟨fde,stored,active⟩
    simpa [unlike] using stored
  refine ⟨⟨sync.circle,?_,?_,?_,?_,?_,?_,?_,?_,sync.covered,sync.table⟩,?_⟩
  · by_cases here : platform.list = node
    · simp [here]
    · simpa [here] using sync.head
  · intro other
    rw [sync.member]
    constructor
    · rintro ⟨fde,stored,pending⟩
      exact ⟨fde,active_kept other fde stored (sync.active_of_pending stored pending),pending⟩
    · rintro ⟨fde,there,pending⟩
      exact ⟨fde,kept other fde there,pending⟩
  · exact fun other fde there => sync.proper other fde (kept other fde there)
  · exact fun other fde there => sync.inside other fde (kept other fde there)
  · intro fd low room other
    rw [show s.fd_table fd = some other ↔ _ from sync.slot fd low room other]
    constructor
    · rintro ⟨fde,stored,active,same⟩
      exact ⟨fde,active_kept other fde stored active,active,same⟩
    · rintro ⟨fde,there,active,same⟩
      exact ⟨fde,kept other fde there,active,same⟩
  · exact fun fd => watched ▸ sync.reading fd
  · exact fun fd => watched ▸ sync.writing fd
  · exact fun fd => watched ▸ sync.failing fd
  · rw [State.view,State.view,watched]
    congr 1
    apply List.map_congr_left
    intro other member
    have unlike : other ≠ node := fun same => outside (same ▸ member)
    simp [State.notice,unlike]

theorem State.InSync.subproc (sync : s.InSync platform queue) {fd : Int} {events : Bits} {answer : Option (Int × Bool)}
    (allowed : Allowed platform s (.subproc fd events answer)) :
    ∃ s' queue', fdevent_subproc_event_func platform s fd events answer = .ok s' ∧ s'.InSync platform queue' ∧
      s'.view platform queue' = (s.view platform queue).run platform (requests platform s (.subproc fd events answer)) := by
  obtain ⟨nonneg,watched,sent⟩ := allowed
  obtain ⟨fd,rfl⟩ := Int.eq_ofNat_of_zero_le nonneg
  obtain ⟨low,room,taken⟩ := sync.watched_iff.mp watched
  obtain ⟨node,slot⟩ := Option.isSome_iff_exists.mp taken
  obtain ⟨fde,stored,active,same⟩ := sync.slot_fde low room slot
  obtain ⟨next,nodes,added,synced,view⟩ :=
    sync.set stored active fun wanted => wanted ||| (platform.FDE_READ &&& FDE_EVENTMASK)
  have known : ¬((fd : Int) < 0 ∨ (s.fd_table_max : Int) ≤ fd) := by
    rw [Int.toNat_natCast] at room
    omega
  have code : fdevent_subproc_event_func platform s fd events answer =
      if events &&& platform.FDE_READ = 0#16 then .ok next else EventLoop.closeSubproc platform next answer := by
    simp only [fdevent_subproc_event_func,if_neg known,slot,fdevent_add,State.load,stored,bind,Except.bind,added]
  rw [code]
  by_cases quiet : events &&& platform.FDE_READ = 0#16
  · refine ⟨next,nodes,if_pos quiet,synced,?_⟩
    rw [view,same]
    simp [requests,quiet,Notices.run,Notices.step]
  · obtain ⟨answered,sent_low⟩ := sent quiet
    obtain ⟨⟨fd',rcount⟩,rfl⟩ := Option.isSome_iff_exists.mp answered
    have sent_low : fd' < platform.slots := sent_low (fd',rcount) rfl
    obtain ⟨final,closed,kept,closed_view⟩ := synced.closeSubproc sent_low rcount
    refine ⟨final,nodes,?_,kept,?_⟩
    · rw [if_neg quiet,closed]
    · have still : ∀ other, (next.watched platform other).isSome = (s.watched platform other).isSome := by
        intro other
        have all := congrArg (fun notices => (notices.watched other).isSome) view
        exact all.trans (Notices.want_watched _ other)
      have wakes : waking (next.watched platform) (some (fd',rcount)) = waking (s.watched platform) (some (fd',rcount)) := by
        cases rcount <;> simp [waking,still]
      rw [closed_view,view,wakes,same]
      simp [requests,quiet,Notices.run,Notices.step]

/-- A call that its caller is allowed to make succeeds, and is what its requests say. -/
theorem State.InSync.step (sync : s.InSync platform queue) {action : Action Ptr Callback}
    (allowed : Allowed platform s action) :
    ∃ s' queue', step platform s action = .ok s' ∧ s'.InSync platform queue' ∧
      s'.view platform queue' = (s.view platform queue).run platform (requests platform s action) := by
  cases action with
  | install node fd func memory =>
    obtain ⟨s',installed,synced,view,_⟩ := sync.install func allowed
    exact ⟨s',queue,installed,synced,view⟩
  | create malloc fd func memory =>
    cases malloc with
    | none => exact ⟨s,queue,rfl,sync,rfl⟩
    | some node =>
      obtain ⟨s',created,synced,view⟩ := sync.create func allowed
      exact ⟨s',queue,created,synced,view⟩
  | remove node =>
    obtain ⟨fde,stored,active⟩ := allowed
    obtain ⟨s',removed,synced,view⟩ := sync.remove stored active
    refine ⟨s',_,removed,synced,?_⟩
    simpa [requests,State.notice,stored,Notices.run,Notices.step] using view
  | destroy node =>
    cases node with
    | none => exact ⟨s,queue,rfl,sync,rfl⟩
    | some node =>
      obtain ⟨fde,stored,active,created⟩ := allowed
      obtain ⟨s',removed,synced,view⟩ := sync.remove stored active
      refine ⟨s',_,?_,synced,?_⟩
      · simpa only [EventLoop.step,fdevent_destroy,State.load,stored,bind,Except.bind,if_pos created] using removed
      · simpa [requests,State.notice,stored,Notices.run,Notices.step] using view
  | set node events =>
    obtain ⟨fde,stored,active⟩ := allowed
    obtain ⟨s',nodes,changed,synced,view⟩ := sync.set stored active fun _ => events
    refine ⟨s',nodes,changed,synced,?_⟩
    simpa [requests,State.notice,stored,Notices.run,Notices.step] using view
  | add node events =>
    obtain ⟨fde,stored,active⟩ := allowed
    obtain ⟨s',nodes,changed,synced,view⟩ :=
      sync.set stored active fun wanted => wanted ||| (events &&& FDE_EVENTMASK)
    refine ⟨s',nodes,?_,synced,?_⟩
    · simpa only [EventLoop.step,fdevent_add,State.load,stored,bind,Except.bind] using changed
    · simpa [requests,State.notice,stored,Notices.run,Notices.step] using view
  | del node events =>
    obtain ⟨fde,stored,active⟩ := allowed
    obtain ⟨s',nodes,changed,synced,view⟩ :=
      sync.set stored active fun wanted => wanted &&& ~~~(events &&& FDE_EVENTMASK)
    refine ⟨s',nodes,?_,synced,?_⟩
    · simpa only [EventLoop.step,fdevent_del,State.load,stored,bind,Except.bind] using changed
    · simpa [requests,State.notice,stored,Notices.run,Notices.step] using view
  | release node =>
    obtain ⟨synced,view⟩ := sync.release allowed
    exact ⟨_,queue,rfl,synced,view⟩
  | subproc fd events answer => exact sync.subproc allowed
  | turn select bad => exact sync.turn select bad

instance (s : State Ptr Callback) (node : Ptr) : Decidable (s.installed node) :=
  decidable_of_iff ((s.fde node).any fun fde => fde.active) (by cases stored : s.fde node <;> simp [State.installed,stored])

instance (s : State Ptr Callback) (node : Ptr) (fd : Int) (memory : Option (Nat → Option Ptr)) :
    Decidable (Free platform s node fd memory) :=
  decidable_of_iff (node ≠ platform.list ∧ node ≠ platform.null ∧ ¬s.installed node ∧ (0 ≤ fd ∧ fd < platform.slots) ∧
      (fd.toNat < s.fd_table_max → s.fd_table fd.toNat = none) ∧ memory.isSome)
    ⟨fun ⟨unlisted,stored,fresh,low,unused,memory⟩ => ⟨unlisted,stored,fresh,low,unused,memory⟩,
      fun free => ⟨free.unlisted,free.stored,free.fresh,free.low,free.unused,free.memory⟩⟩

instance (s : State Ptr Callback) : (action : Action Ptr Callback) → Decidable (Allowed platform s action)
  | .install node fd _ memory => inferInstanceAs (Decidable (Free platform s node fd memory))
  | .create none _ _ _ => .isTrue trivial
  | .create (some node) fd _ memory => inferInstanceAs (Decidable (Free platform s node fd memory))
  | .remove node => inferInstanceAs (Decidable (s.installed node))
  | .destroy none => .isTrue trivial
  | .destroy (some node) =>
    decidable_of_iff ((s.fde node).any fun fde => fde.active && fde.created)
      (by cases stored : s.fde node <;> simp [Allowed,stored])
  | .set node _ => inferInstanceAs (Decidable (s.installed node))
  | .add node _ => inferInstanceAs (Decidable (s.installed node))
  | .del node _ => inferInstanceAs (Decidable (s.installed node))
  | .release node => inferInstanceAs (Decidable ¬s.installed node)
  | .subproc _ _ _ => inferInstanceAs (Decidable (_ ∧ _ ∧ (_ → _ ∧ _)))
  | .turn _ _ => .isTrue trivial

/-- `Kept` of every call of the run, in the state where it is made. -/
def Along (platform : Platform Ptr) (Kept : State Ptr Callback → Action Ptr Callback → Prop) :
    State Ptr Callback → List (Action Ptr Callback) → Prop
  | _, [] => True
  | s, action::rest => Kept s action ∧ ∀ next, step platform s action = .ok next → Along platform Kept next rest

def Careful (platform : Platform Ptr) : State Ptr Callback → List (Action Ptr Callback) → Prop :=
  Along platform (Allowed platform)

def requestsAlong (platform : Platform Ptr) : State Ptr Callback → List (Action Ptr Callback) → List (Request Callback)
  | _, [] => []
  | s, action::rest => requests platform s action ++
    match step platform s action with
    | .ok next => requestsAlong platform next rest
    | .error _ => []

instance Along.decidable {Kept : State Ptr Callback → Action Ptr Callback → Prop} [∀ s action, Decidable (Kept s action)] :
    (s : State Ptr Callback) → (actions : List (Action Ptr Callback)) → Decidable (Along platform Kept s actions)
  | _, [] => .isTrue trivial
  | s, action::rest =>
    have : Decidable (∀ next, step platform s action = .ok next → Along platform Kept next rest) :=
      match step platform s action with
      | .ok next =>
        have : Decidable (Along platform Kept next rest) := Along.decidable next rest
        decidable_of_iff (Along platform Kept next rest) (by simp)
      | .error _ => .isTrue (by simp)
    inferInstanceAs (Decidable (_ ∧ _))

instance (s : State Ptr Callback) (actions : List (Action Ptr Callback)) : Decidable (Careful platform s actions) :=
  inferInstanceAs (Decidable (Along platform (Allowed platform) s actions))

theorem State.InSync.run (sync : s.InSync platform queue) {actions : List (Action Ptr Callback)}
    (careful : Careful platform s actions) :
    ∃ final queue', run platform s actions = .ok final ∧ final.InSync platform queue' ∧
      final.view platform queue' = (s.view platform queue).run platform (requestsAlong platform s actions) := by
  induction actions generalizing s queue with
  | nil => exact ⟨s,queue,rfl,sync,rfl⟩
  | cons action rest ih =>
    obtain ⟨allowed,later⟩ := careful
    obtain ⟨next,nodes,taken,synced,view⟩ := sync.step allowed
    obtain ⟨final,queue',ran,kept,final_view⟩ := ih synced (later next taken)
    refine ⟨final,queue',?_,kept,?_⟩
    · simpa only [EventLoop.run,List.foldlM_cons,taken,bind,Except.bind] using ran
    · rw [final_view,view,requestsAlong,taken,Notices.run,Notices.run,Notices.run,List.foldl_append]

end Libsme.Input.EventLoop
