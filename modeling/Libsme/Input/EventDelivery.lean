import Libsme.Input.EventRequests

/-! What the callers of the event loop see over whole runs: which events are passed on, in which
order and how soon, and what a change of the wanted events does to those that wait. -/
namespace Libsme.Input.EventLoop

variable {Ptr Callback : Type} {platform : Platform Ptr} {s : State Ptr Callback} {queue : List Ptr} {node : Ptr}
  {fde : Fdevent Callback} {fd : Nat}

def State.pendingEvents (s : State Ptr Callback) (platform : Platform Ptr) (fd : Nat) : List Bits :=
  match s.watcher platform fd with
  | some fde => if fde.pending then [fde.events] else []
  | none => []

theorem pendingOf_of_unique {notices : List (Nat × Bits)} (distinct : (notices.map Prod.fst).Nodup) {events : Bits}
    (member : (fd,events) ∈ notices) : pendingOf fd notices = [events] := by
  induction notices with
  | nil => exact absurd member List.not_mem_nil
  | cons notice notices ih =>
    obtain ⟨fresh,distinct⟩ := List.nodup_cons.mp distinct
    rw [pendingOf_cons]
    rcases List.mem_cons.mp member with rfl | later
    · have none_left : pendingOf fd notices = [] := by
        rw [pendingOf_nil_iff]
        exact fun other inside same => fresh (List.mem_map.mpr ⟨other,inside,same⟩)
      simp [none_left]
    · have unlike : notice.1 ≠ fd := fun same => fresh (List.mem_map.mpr ⟨(fd,events),later,same.symm⟩)
      rw [if_neg unlike,ih distinct later]
      rfl

theorem State.InSync.watcher_iff (sync : s.InSync platform queue) :
    s.watcher platform fd = some fde ↔ ∃ node, s.fde node = some fde ∧ fde.active ∧ fde.fd = fd := by
  constructor
  · intro watcher
    rw [State.watcher] at watcher
    split at watcher
    · rename_i low
      obtain ⟨node,slot,stored⟩ := Option.bind_eq_some_iff.mp watcher
      obtain ⟨record,there,active,same⟩ := sync.slot_fde low.1 low.2 slot
      obtain rfl : record = fde := Option.some.inj (there.symm.trans stored)
      exact ⟨node,stored,active,same⟩
    · exact absurd watcher (by simp)
  · rintro ⟨node,stored,active,same⟩
    have watcher := sync.watcher_eq stored active
    rwa [same,Int.toNat_natCast] at watcher

theorem State.InSync.orderly (sync : s.InSync platform queue) : (s.view platform queue).Orderly := by
  have distinct : queue.Nodup := (List.nodup_cons.mp sync.circle.distinct).2
  refine ⟨?_,?_,?_⟩
  · rw [State.view,List.map_map]
    apply distinct.map_on
    intro node inside other other_inside same
    obtain ⟨fde,stored,active⟩ := sync.installed other_inside
    have here : (s.notice node).1 = fde.fd.toNat := by simpa [State.notice,stored] using same
    exact (sync.notice_fst stored active (sync.installed inside)).mp here
  · intro notice member
    obtain ⟨node,inside,rfl⟩ := List.mem_map.mp member
    obtain ⟨fde,stored,active⟩ := sync.installed inside
    simp [State.view,State.notice,stored,sync.watched_eq stored active]
  · intro notice member
    obtain ⟨node,inside,rfl⟩ := List.mem_map.mp member
    obtain ⟨fde,stored,pending⟩ := (sync.member node).mp inside
    simpa [State.notice,stored] using (sync.proper node fde stored).events.mp pending

theorem State.InSync.pendingEvents_eq (sync : s.InSync platform queue) :
    s.pendingEvents platform fd = pendingOf fd (s.view platform queue).queue := by
  have orderly := sync.orderly
  cases watcher : s.watcher platform fd with
  | none =>
    have none_waits : pendingOf fd (s.view platform queue).queue = [] := by
      rw [pendingOf_nil_iff]
      rintro notice member rfl
      have watched := orderly.watched notice member
      simp [State.view,State.watched,watcher] at watched
    simp [State.pendingEvents,watcher,none_waits]
  | some fde =>
    obtain ⟨node,stored,active,same⟩ := sync.watcher_iff.mp watcher
    have here : s.notice node = (fd,fde.events) := by simp [State.notice,stored,same]
    by_cases pending : fde.pending
    · have inside := (sync.member node).mpr ⟨fde,stored,pending⟩
      have member : (fd,fde.events) ∈ (s.view platform queue).queue := here ▸ List.mem_map_of_mem inside
      simp [State.pendingEvents,watcher,pending,pendingOf_of_unique orderly.distinct member]
    · have none_waits : pendingOf fd (s.view platform queue).queue = [] := by
        rw [pendingOf_nil_iff]
        intro notice member
        obtain ⟨other,inside,rfl⟩ := List.mem_map.mp member
        intro same_fd
        have fst := sync.notice_fst stored active (sync.installed inside)
        rw [same,Int.toNat_natCast] at fst
        obtain rfl := fst.mp same_fd
        obtain ⟨record,there,waits⟩ := (sync.member other).mp inside
        rw [stored] at there
        exact pending (Option.some.inj there ▸ waits)
      simp [State.pendingEvents,watcher,pending,none_waits]

def turnsIn (actions : List (Action Ptr Callback)) : Nat :=
  actions.countP fun action => match action with
    | .turn _ _ => true
    | _ => false

theorem Notices.run_log_prefix (notices : Notices Callback) (requests : List (Request Callback)) :
    notices.log <+: (notices.run platform requests).log := by
  induction requests generalizing notices with
  | nil => exact List.prefix_rfl
  | cons request rest ih => exact (notices.log_prefix request).trans (ih _)

theorem requests_quiet {action : Action Ptr Callback} (no_turn : turnsIn [action] = 0) :
    ∀ request ∈ requests platform s action, turnsOf request = 0 := by
  cases action with
  | turn select bad => simp [turnsIn] at no_turn
  | install node fd func memory => simp [requests,turnsOf]
  | create malloc fd func memory => cases malloc <;> simp [requests,turnsOf]
  | remove node => simp [requests,turnsOf]
  | destroy node => cases node <;> simp [requests,turnsOf]
  | set node events => simp [requests,turnsOf]
  | add node events => simp [requests,turnsOf]
  | del node events => simp [requests,turnsOf]
  | release node => simp [requests]
  | subproc fd events answer =>
    intro request member
    simp only [requests,List.mem_cons] at member
    rcases member with rfl | member
    · rfl
    · split at member
      · exact absurd member List.not_mem_nil
      · rcases answer with _ | ⟨sent,rcount⟩
        · exact absurd member List.not_mem_nil
        · cases rcount with
          | true => exact absurd member List.not_mem_nil
          | false =>
            rw [waking] at member
            split at member
            · rw [List.mem_singleton.mp member]
              rfl
            · exact absurd member List.not_mem_nil

/-- A request list of one call leaves the notice where it is or nearer to its turn. -/
theorem requests_ahead {notices : Notices Callback} {requests : List (Request Callback)} (orderly : notices.Orderly)
    {before after : List (Nat × Bits)} {events : Bits} (queued : notices.queue = before ++ (fd,events)::after)
    (quiet : ∀ request ∈ requests, turnsOf request = 0) (undisturbed : ∀ request ∈ requests, Undisturbed fd [events] request) :
    let next := notices.run platform requests
    callsOf fd next.log = callsOf fd notices.log ∧ ∃ before' after',
      next.queue = before' ++ (fd,events)::after' ∧ before'.length ≤ before.length := by
  induction requests generalizing notices before after with
  | nil => exact ⟨rfl,before,after,queued,Nat.le_refl _⟩
  | cons request rest ih =>
    have no_turn := quiet request List.mem_cons_self
    rcases @step_ahead _ _ platform notices fd events before after orderly queued request
      (undisturbed request List.mem_cons_self) with ⟨_,turn,_⟩ | ⟨calls,nearer,behind,still,closer⟩
    · omega
    · obtain ⟨later_calls,before',after',final,shorter⟩ := ih (orderly.step request) still
        (fun other member => quiet other (List.mem_cons_of_mem request member))
        (fun other member => undisturbed other (List.mem_cons_of_mem request member))
      exact ⟨later_calls.trans calls,before',after',final,by omega⟩

theorem initial_view : (initial platform Callback).view platform [] = ⟨fun _ => none,[],[]⟩ := by
  rw [State.view,watched_of_empty rfl]
  rfl

variable [DecidableEq Ptr]

/-- The call leaves what waits for the descriptor alone, and does not wake it. -/
def Untouched (platform : Platform Ptr) (fd : Nat) (s : State Ptr Callback) (action : Action Ptr Callback) : Prop :=
  ∀ request ∈ requests platform s action, Undisturbed fd (s.pendingEvents platform fd) request

instance (pending : List Bits) : (request : Request Callback) → Decidable (Undisturbed fd pending request)
  | .watch _ _ => .isTrue trivial
  | .unwatch _ => inferInstanceAs (Decidable (_ → _))
  | .want _ _ => inferInstanceAs (Decidable (_ → _))
  | .wake _ => inferInstanceAs (Decidable (_ ≠ _))
  | .turn _ _ => .isTrue trivial

instance (s : State Ptr Callback) (action : Action Ptr Callback) : Decidable (Untouched platform fd s action) :=
  inferInstanceAs (Decidable (∀ request ∈ _,_))

/-- What the loop learns of a descriptor from select or fcntl, where it has no other function
to call. -/
def reports (platform : Platform Ptr) (fd : Nat) (s : State Ptr Callback) : Action Ptr Callback → List Bits
  | .turn select bad =>
    if s.links.next platform.list = platform.list then
      pendingOf fd (reported platform (s.watched platform) select bad)
    else []
  | _ => []

def reportsAlong (platform : Platform Ptr) (fd : Nat) : State Ptr Callback → List (Action Ptr Callback) → List Bits
  | _, [] => []
  | s, action::rest => reports platform fd s action ++
    match step platform s action with
    | .ok next => reportsAlong platform fd next rest
    | .error _ => []

theorem State.InSync.reports_turn (sync : s.InSync platform queue) (select : Select) (bad : Nat → Bool) :
    reportsOf platform (s.view platform queue) fd (.turn select bad) = reports platform fd s (.turn select bad) := by
  have empty : (s.view platform queue).queue = [] ↔ s.links.next platform.list = platform.list := by
    rw [sync.circle.next_head]
    cases queue with
    | nil => simp [State.view]
    | cons node rest =>
      have apart : node ≠ platform.list := fun same =>
        (List.nodup_cons.mp sync.circle.distinct).1 (same ▸ List.mem_cons_self)
      simp [State.view,apart]
  simp only [reportsOf,reports,empty]
  rfl

theorem State.InSync.conserves (sync : s.InSync platform queue) {action : Action Ptr Callback}
    (untouched : Untouched platform fd s action) :
    let next := (s.view platform queue).run platform (requests platform s action)
    callsOf fd next.log ++ pendingOf fd next.queue =
      callsOf fd s.log ++ (s.pendingEvents platform fd ++ reports platform fd s action) := by
  have none_made : requests platform s action = [] → reports platform fd s action = [] →
      callsOf fd ((s.view platform queue).run platform (requests platform s action)).log ++
          pendingOf fd ((s.view platform queue).run platform (requests platform s action)).queue =
        callsOf fd s.log ++ (s.pendingEvents platform fd ++ reports platform fd s action) := by
    intro no_request no_report
    rw [no_request,no_report,sync.pendingEvents_eq,List.append_nil]
    rfl
  have one_made : ∀ request, requests platform s action = [request] →
      reportsOf platform (s.view platform queue) fd request = reports platform fd s action →
      callsOf fd ((s.view platform queue).run platform (requests platform s action)).log ++
          pendingOf fd ((s.view platform queue).run platform (requests platform s action)).queue =
        callsOf fd s.log ++ (s.pendingEvents platform fd ++ reports platform fd s action) := by
    intro request made same
    have undisturbed := untouched request (by simp [made])
    rw [sync.pendingEvents_eq] at undisturbed ⊢
    rw [made,← same]
    exact step_conserves sync.orderly undisturbed
  cases action with
  | install node fd func memory => exact one_made _ rfl rfl
  | create malloc fd func memory =>
    cases malloc with
    | none => exact none_made rfl rfl
    | some node => exact one_made _ rfl rfl
  | remove node => exact one_made _ rfl rfl
  | destroy node =>
    cases node with
    | none => exact none_made rfl rfl
    | some node => exact one_made _ rfl rfl
  | set node events => exact one_made _ rfl rfl
  | add node events => exact one_made _ rfl rfl
  | del node events => exact one_made _ rfl rfl
  | release node => exact none_made rfl rfl
  | turn select bad => exact one_made _ rfl (sync.reports_turn select bad)
  | subproc other events answer =>
    by_cases quiet : events &&& platform.FDE_READ = 0#16
    · have made : requests platform s (.subproc other events answer) =
          [.want other.toNat fun wanted => wanted ||| (platform.FDE_READ &&& FDE_EVENTMASK)] := by
        simp only [requests,if_pos quiet]
      exact one_made _ made rfl
    · have made : requests platform s (.subproc other events answer) =
          .want other.toNat (fun wanted => wanted ||| (platform.FDE_READ &&& FDE_EVENTMASK))::
            waking (s.watched platform) answer := by
        simp only [requests,if_neg quiet]
      have wakes : waking (s.watched platform) answer = [] ∨ ∃ sent, waking (s.watched platform) answer = [.wake sent] := by
        rcases answer with _ | ⟨sent,rcount⟩
        · exact .inl rfl
        · cases rcount with
          | true => exact .inl rfl
          | false =>
            rw [waking]
            split
            · exact .inr ⟨_,rfl⟩
            · exact .inl rfl
      rcases wakes with none_woken | ⟨sent,woken⟩
      · rw [none_woken] at made
        exact one_made _ made rfl
      · rw [woken] at made
        have first := untouched _ (made ▸ List.mem_cons_self)
        have second : Undisturbed fd [] (.wake sent : Request Callback) :=
          untouched (.wake sent) (by simp [made])
        rw [sync.pendingEvents_eq] at first ⊢
        have want := @step_conserves _ _ platform _ fd sync.orderly _ first
        have orderly := @Notices.Orderly.step _ _ platform _ sync.orderly
          (.want other.toNat fun wanted => wanted ||| (platform.FDE_READ &&& FDE_EVENTMASK))
        have wake := @step_conserves _ _ platform _ fd orderly (.wake sent) second
        rw [made]
        simp only [reportsOf,List.append_nil] at want wake
        exact (wake.trans want).trans (by simp [reports,State.view])

/-- Over untouched calls the loop passes on what waited and what was reported, in order, but for
what still waits. -/
theorem State.InSync.run_conserves (sync : s.InSync platform queue) {actions : List (Action Ptr Callback)}
    (careful : Careful platform s actions) (untouched : Along platform (Untouched platform fd) s actions)
    {final : State Ptr Callback} (ran : EventLoop.run platform s actions = .ok final) :
    callsOf fd final.log ++ final.pendingEvents platform fd =
      callsOf fd s.log ++ (s.pendingEvents platform fd ++ reportsAlong platform fd s actions) := by
  induction actions generalizing s queue with
  | nil =>
    obtain rfl : s = final := Except.ok.inj ran
    simp [reportsAlong]
  | cons action rest ih =>
    obtain ⟨allowed,later⟩ := careful
    obtain ⟨left_alone,rest_alone⟩ := untouched
    obtain ⟨next,nodes,taken,synced,view⟩ := sync.step allowed
    have step := sync.conserves left_alone
    dsimp only at step
    rw [← view,← synced.pendingEvents_eq] at step
    have ran_rest : EventLoop.run platform next rest = .ok final := by
      simpa only [EventLoop.run,List.foldlM_cons,taken,bind,Except.bind] using ran
    have rest_conserves := ih synced (later next taken) (rest_alone next taken) ran_rest
    rw [rest_conserves,reportsAlong,taken]
    simp only [State.view] at step
    rw [← List.append_assoc,step]
    simp only [List.append_assoc]

/-- A notice with so many before it is passed on within one turn more, unchanged. -/
theorem State.InSync.run_ahead (sync : s.InSync platform queue) {actions : List (Action Ptr Callback)}
    (careful : Careful platform s actions) (untouched : Along platform (Untouched platform fd) s actions)
    {final : State Ptr Callback} (ran : EventLoop.run platform s actions = .ok final)
    {before after : List (Nat × Bits)} {events : Bits}
    (queued : (s.view platform queue).queue = before ++ (fd,events)::after) (turns : before.length < turnsIn actions) :
    ∃ more, callsOf fd final.log = callsOf fd s.log ++ events::more := by
  induction actions generalizing s queue before after with
  | nil => simp [turnsIn] at turns
  | cons action rest ih =>
    have waits : s.pendingEvents platform fd = [events] := by
      rw [sync.pendingEvents_eq]
      exact pendingOf_of_unique sync.orderly.distinct (by simp [queued])
    obtain ⟨allowed,later⟩ := careful
    obtain ⟨left_alone,rest_alone⟩ := untouched
    obtain ⟨next,nodes,taken,synced,view⟩ := sync.step allowed
    have ran_rest : EventLoop.run platform next rest = .ok final := by
      simpa only [EventLoop.run,List.foldlM_cons,taken,bind,Except.bind] using ran
    have undisturbed : ∀ request ∈ requests platform s action, Undisturbed fd [events] request := waits ▸ left_alone
    have counted : turnsIn (action::rest) = turnsIn [action]+turnsIn rest := by
      simp [turnsIn,List.countP_cons,Nat.add_comm]
    have next_calls : callsOf fd next.log = callsOf fd ((s.view platform queue).run platform (requests platform s action)).log :=
      congrArg (fun notices => callsOf fd notices.log) view
    by_cases turning : ∃ select bad, action = .turn select bad
    · obtain ⟨select,bad,rfl⟩ := turning
      have one_turn : turnsIn [(Action.turn select bad : Action Ptr Callback)] = 1 := by simp [turnsIn]
      rcases @step_ahead _ _ platform _ fd events before after sync.orderly queued (.turn select bad)
        (undisturbed _ (by simp [requests])) with ⟨_,_,calls⟩ | ⟨calls,nearer,behind,still,closer⟩
      · obtain ⟨_,_,again,_,final_view⟩ := synced.run (later next taken)
        obtain rfl := Except.ok.inj (ran_rest.symm.trans again)
        obtain ⟨more,extended⟩ :=
          @Notices.run_log_prefix _ _ platform (next.view platform nodes) (requestsAlong platform next rest)
        rw [← final_view] at extended
        refine ⟨callsOf fd more,?_⟩
        rw [show final.log = next.log ++ more from extended.symm,callsOf_append,next_calls]
        exact (congrArg (· ++ callsOf fd more) calls).trans (by simp [State.view])
      · have shorter : nearer.length < turnsIn rest := by
          simp only [turnsOf] at closer
          omega
        obtain ⟨more,final_calls⟩ := ih synced (later next taken) (rest_alone next taken) ran_rest
          (congrArg Notices.queue view ▸ still) shorter
        exact ⟨more,by rw [final_calls,next_calls]; exact congrArg (· ++ events::more) calls⟩
    · have no_turn : turnsIn [action] = 0 := by
        cases action with
        | turn select bad => exact absurd ⟨select,bad,rfl⟩ turning
        | _ => rfl
      obtain ⟨calls,nearer,behind,still,closer⟩ := requests_ahead sync.orderly queued (requests_quiet no_turn) undisturbed
      have shorter : nearer.length < turnsIn rest := by omega
      obtain ⟨more,final_calls⟩ := ih synced (later next taken) (rest_alone next taken) ran_rest
        (congrArg Notices.queue view ▸ still) shorter
      exact ⟨more,by rw [final_calls,next_calls]; exact congrArg (· ++ events::more) calls⟩

def sixtyFourBit : Platform Nat where
  list := 0
  null := 1
  sizeofInt := 4
  sizeofPointer := 8
  FDE_READ := 0x01
  FDE_WRITE := 0x02
  FDE_ERROR := 0x04
  FDE_DONT_CLOSE := 0x80
  pointer := by decide
  read := by decide
  write := by decide
  error := by decide
  dontClose := by decide

def noticed : List (Action Nat Unit) :=
  [.install 2 5 () (some fun _ => none),.set 2 0x01,
    .turn (.ready (fun fd => fd = 5) (fun _ => false) fun _ => false) fun _ => false]

section Start
variable {before after : List (Action Ptr Callback)} {mid next final : State Ptr Callback}

/-- A careful run never stops: the list, the table and the sets agree at its end, and the loop
has done what was asked of it, notice by notice. -/
theorem loop_serves_requests (platform : Platform Ptr) (actions : List (Action Ptr Callback))
    (careful : Careful platform (initial platform Callback) actions) :
    ∃ final queue, run platform (initial platform Callback) actions = .ok final ∧ final.InSync platform queue ∧
      final.view platform queue =
        Notices.run platform ⟨fun _ => none,[],[]⟩ (requestsAlong platform (initial platform Callback) actions) := by
  obtain ⟨final,queue,ran,synced,view⟩ := initial_inSync.run careful
  exact ⟨final,queue,ran,synced,view.trans (by rw [initial_view])⟩

theorem loop_serves_noticed : ∃ final queue, run sixtyFourBit (initial sixtyFourBit Unit) noticed = .ok final ∧
    final.InSync sixtyFourBit queue ∧ final.view sixtyFourBit queue =
      Notices.run sixtyFourBit ⟨fun _ => none,[],[]⟩ (requestsAlong sixtyFourBit (initial sixtyFourBit Unit) noticed) :=
  loop_serves_requests sixtyFourBit noticed (by decide +kernel)

theorem Along.of_append {Kept : State Ptr Callback → Action Ptr Callback → Prop}
    (along : Along platform Kept s (before ++ after)) (ran : run platform s before = .ok mid) :
    Along platform Kept s before ∧ Along platform Kept mid after := by
  induction before generalizing s with
  | nil =>
    obtain rfl : s = mid := Except.ok.inj ran
    exact ⟨trivial,along⟩
  | cons action rest ih =>
    obtain ⟨kept,later⟩ := along
    cases taken : step platform s action with
    | error stop => simp [run,List.foldlM_cons,taken,bind,Except.bind] at ran
    | ok next =>
      have ran_rest : run platform next rest = .ok mid := by
        simpa only [run,List.foldlM_cons,taken,bind,Except.bind] using ran
      refine ⟨⟨kept,fun other other_taken => ?_⟩,(ih (later next taken) ran_rest).2⟩
      obtain rfl : next = other := Except.ok.inj (taken.symm.trans other_taken)
      exact (ih (later next taken) ran_rest).1

theorem reached_inSync (careful : Careful platform (initial platform Callback) (before ++ after))
    (reached : run platform (initial platform Callback) before = .ok mid) :
    (∃ queue, mid.InSync platform queue) ∧ Careful platform mid after := by
  obtain ⟨careful_before,careful_after⟩ := Along.of_append careful reached
  obtain ⟨final,queue,ran,synced,_⟩ := initial_inSync.run careful_before
  obtain rfl : mid = final := Except.ok.inj (reached.symm.trans ran)
  exact ⟨⟨queue,synced⟩,careful_after⟩

/-- Whatever is reported of a descriptor is passed on to its function exactly once and in
order, but for what still waits, as long as nobody touches its fdevent. -/
theorem loop_passes_reports_on (platform : Platform Ptr) (before after : List (Action Ptr Callback)) (fd : Nat)
    (careful : Careful platform (initial platform Callback) (before ++ after))
    (reached : run platform (initial platform Callback) before = .ok mid)
    (untouched : Along platform (Untouched platform fd) mid after) (ran : run platform mid after = .ok final) :
    callsOf fd final.log ++ final.pendingEvents platform fd =
      callsOf fd mid.log ++ (mid.pendingEvents platform fd ++ reportsAlong platform fd mid after) := by
  obtain ⟨⟨queue,synced⟩,careful_after⟩ := reached_inSync careful reached
  exact synced.run_conserves careful_after untouched ran

theorem loop_passes_noticed_on : ∃ mid final, run sixtyFourBit (initial sixtyFourBit Unit) noticed = .ok mid ∧
    run sixtyFourBit mid [.turn .interrupted fun _ => false] = .ok final ∧
    callsOf 5 final.log ++ final.pendingEvents sixtyFourBit 5 = callsOf 5 mid.log ++
      (mid.pendingEvents sixtyFourBit 5 ++ reportsAlong sixtyFourBit 5 mid [.turn .interrupted fun _ => false]) :=
  ⟨_,_,rfl,rfl,loop_passes_reports_on sixtyFourBit noticed [.turn .interrupted fun _ => false] 5 (by decide +kernel) rfl
    (by decide +kernel) rfl⟩

/-- No fdevent starves: one with so many before it in list_pending has its function called, with
the events that wait, within one turn more. -/
theorem loop_calls_pending (platform : Platform Ptr) (before after : List (Action Ptr Callback))
    (ahead behind : List Ptr) (careful : Careful platform (initial platform Callback) (before ++ after))
    (reached : run platform (initial platform Callback) before = .ok mid)
    (listed : mid.links.Circle platform.list (ahead ++ node::behind)) (stored : mid.fde node = some fde)
    (untouched : Along platform (Untouched platform fde.fd.toNat) mid after) (turns : ahead.length < turnsIn after)
    (ran : run platform mid after = .ok final) :
    ∃ more, callsOf fde.fd.toNat final.log = callsOf fde.fd.toNat mid.log ++ fde.events::more := by
  obtain ⟨⟨queue,synced⟩,careful_after⟩ := reached_inSync careful reached
  obtain rfl : queue = ahead ++ node::behind := synced.circle.unique listed
  apply synced.run_ahead careful_after untouched ran
  · have here : mid.notice node = (fde.fd.toNat,fde.events) := by simp [State.notice,stored]
    rw [State.view,List.map_append,List.map_cons,here]
  · simpa using turns

theorem loop_calls_noticed : ∃ mid final fde more, run sixtyFourBit (initial sixtyFourBit Unit) noticed = .ok mid ∧
    mid.fde 2 = some fde ∧ run sixtyFourBit mid [.turn .interrupted fun _ => false] = .ok final ∧
    callsOf fde.fd.toNat final.log = callsOf fde.fd.toNat mid.log ++ fde.events::more := by
  obtain ⟨more,called⟩ := @loop_calls_pending _ _ 2 _ _ _ _ sixtyFourBit noticed [.turn .interrupted fun _ => false] [] []
    (by decide +kernel) rfl ⟨by decide,rfl,rfl,rfl,rfl⟩ rfl (by decide +kernel) (by decide) rfl
  exact ⟨_,_,_,more,rfl,rfl,rfl,called⟩

/-- A new mask keeps of the events that wait those outside it. -/
theorem loop_set_keeps_unwanted (platform : Platform Ptr) (before after : List (Action Ptr Callback)) (node : Ptr)
    (events : Bits) (careful : Careful platform (initial platform Callback) (before ++ .set node events::after))
    (reached : run platform (initial platform Callback) before = .ok mid) (stored : mid.fde node = some fde)
    (pending : fde.pending) (changed : fde.wanted ≠ events &&& FDE_EVENTMASK)
    (set : fdevent_set platform mid node events = .ok next)
    (untouched : Along platform (Untouched platform fde.fd.toNat) next after) (ran : run platform next after = .ok final) :
    callsOf fde.fd.toNat final.log ++ final.pendingEvents platform fde.fd.toNat = callsOf fde.fd.toNat mid.log ++
      ([fde.events &&& ~~~(events &&& FDE_EVENTMASK)].filter (· ≠ 0#16) ++
        reportsAlong platform fde.fd.toNat next after) := by
  obtain ⟨⟨queue,synced⟩,careful_after⟩ := reached_inSync careful reached
  have active := synced.active_of_pending stored pending
  obtain ⟨other,nodes,set_other,synced_next,view⟩ := synced.set stored active fun _ => events
  obtain rfl : next = other := Except.ok.inj (set.symm.trans set_other)
  have conserved := synced_next.run_conserves (careful_after.2 next set) untouched ran
  have waits : pendingOf fde.fd.toNat (mid.view platform queue).queue = [fde.events] := by
    have here : mid.notice node = (fde.fd.toNat,fde.events) := by simp [State.notice,stored]
    exact pendingOf_of_unique synced.orderly.distinct
      (here ▸ List.mem_map_of_mem ((synced.member node).mpr ⟨fde,stored,pending⟩))
  have log : next.log = mid.log := by
    have all := congrArg Notices.log view
    simp only [Notices.want,State.view,synced.watched_eq stored active,if_neg changed] at all
    exact all
  have left : next.pendingEvents platform fde.fd.toNat =
      [fde.events &&& ~~~(events &&& FDE_EVENTMASK)].filter (· ≠ 0#16) := by
    have all := congrArg Notices.queue view
    simp only [Notices.want,State.view,synced.watched_eq stored active,if_neg changed] at all
    simp only [State.view] at waits
    rw [synced_next.pendingEvents_eq,State.view]
    simp only [all,pendingOf_strike,if_pos,waits,List.map_singleton]
  rw [conserved,log,left]

theorem loop_set_keeps_noticed : ∃ mid next final fde, run sixtyFourBit (initial sixtyFourBit Unit) noticed = .ok mid ∧
    mid.fde 2 = some fde ∧ fdevent_set sixtyFourBit mid 2 0x02 = .ok next ∧
    run sixtyFourBit next [.turn .interrupted fun _ => false] = .ok final ∧
    callsOf fde.fd.toNat final.log ++ final.pendingEvents sixtyFourBit fde.fd.toNat = callsOf fde.fd.toNat mid.log ++
      ([fde.events &&& ~~~(0x02#16 &&& FDE_EVENTMASK)].filter (· ≠ 0#16) ++
        reportsAlong sixtyFourBit fde.fd.toNat next [.turn .interrupted fun _ => false]) :=
  ⟨_,_,_,_,rfl,rfl,rfl,rfl,loop_set_keeps_unwanted sixtyFourBit noticed [.turn .interrupted fun _ => false] 2 0x02
    (by decide +kernel) rfl rfl (by decide +kernel) (by decide +kernel) rfl (by decide +kernel) rfl⟩

end Start
theorem doubled_gt {fd turns max : Nat} (enough : fd < max*2^turns) : fd < doubled fd turns max := by
  induction turns generalizing max with
  | zero => simpa [doubled] using enough
  | succ turns ih =>
    rw [doubled]
    split
    · exact ih (by rwa [Nat.mul_assoc,← Nat.pow_succ'])
    · omega

theorem collect_skip {rfd wfd efd : Nat → Bool} (count left i : Nat) {n : Int} (positive : 0 < n)
    (silent : ∀ fd, i ≤ fd → fd < i+count → bitCount rfd wfd efd fd = 0) :
    collect platform rfd wfd efd (count+left) i n s = collect platform rfd wfd efd left (i+count) n s := by
  induction count generalizing i with
  | zero => rw [Nat.zero_add,Nat.add_zero]
  | succ count ih =>
    have here := silent i (Nat.le_refl i) (by omega)
    have later := ih (i+1) fun fd low high => silent fd (by omega) (by omega)
    have shape : count+1+left = count+left+1 := by omega
    have place : i+(count+1) = i+1+count := by omega
    rw [shape,place,← later,collect,if_pos positive,here]
    simp [eventBits_eq_zero.mpr here,bind,Except.bind]

/-- The slots of a table made for the descriptor that memset clears. -/
def Platform.cleared (platform : Platform Ptr) (fd : Nat) : Nat :=
  platform.sizeofInt*doubled fd fd 256/platform.sizeofPointer

/-- A slot that nobody has stored to, at a descriptor that is not open, is taken for an fdevent
when select finds a bad descriptor. -/
theorem process_reads_junk {slot : Nat} {junk : Ptr} {bad : Nat → Bool} (inside : slot < s.select_n)
    (covered : s.select_n ≤ s.fd_table_max) (fits : s.select_n ≤ FD_SETSIZE) (low : ∀ i < slot, s.fd_table i = none)
    (holds : s.fd_table slot = some junk) (nobody : s.fde junk = none) (closed : bad slot = true) :
    fdevent_process platform s .badFd bad = .error .undefined := by
  let rfd : Nat → Bool := fun i => i ∈ (List.range s.select_n).filter (checkFails s bad)
  have member : slot ∈ (List.range s.select_n).filter (checkFails s bad) := by
    rw [List.mem_filter,List.mem_range,checkFails,holds,closed]
    exact ⟨inside,rfl⟩
  have quiet : ∀ i, 0 ≤ i → i < 0+slot → bitCount rfd (fun _ => false) (fun _ => false) i = 0 := by
    intro i _ below
    have silent : rfd i = false := by
      simp [rfd,checkFails,low i (by omega)]
    rw [bitCount,silent]
    rfl
  have some_found : 0 < (((List.range s.select_n).filter (checkFails s bad)).length : Int) := by
    have := List.length_pos_of_mem member
    omega
  obtain ⟨left,split⟩ : ∃ left, s.select_n = slot+(left+1) := ⟨s.select_n-slot-1,by omega⟩
  have reads : ∀ count, count = slot+(left+1) → collect platform rfd (fun _ => false) (fun _ => false) count 0
      ((List.range s.select_n).filter (checkFails s bad)).length s = .error .undefined := by
    rintro _ rfl
    rw [collect_skip slot (left+1) 0 some_found quiet,Nat.zero_add,collect,if_pos some_found]
    have found : rfd slot = true := decide_eq_true member
    have events : eventBits platform rfd (fun _ => false) (fun _ => false) slot = platform.FDE_READ := by
      simp [eventBits,found]
    have within : ¬s.fd_table_max ≤ slot := by omega
    simp only [events,if_neg platform.read,notice,if_neg within,holds,State.load,nobody,bind,Except.bind]
  simp only [fdevent_process,if_neg (Nat.not_lt.mpr fits),fdevent_fd_check,if_pos covered,bind,Except.bind]
  exact reads s.select_n split

theorem set_idle {events : Bits} (stored : s.fde node = some fde) (active : fde.active) (idle : ¬fde.pending)
    (changed : fde.wanted ≠ events &&& FDE_EVENTMASK) (least : 0 ≤ fde.fd) (few : fde.fd < FD_SETSIZE) :
    ∃ s', fdevent_set platform s node events = .ok s' ∧ s'.links = s.links ∧ s'.fd_table = s.fd_table ∧
      s'.fd_table_max = s.fd_table_max ∧ s'.select_n = s.select_n ∧
      s'.read_fds fde.fd.toNat = decide (events &&& FDE_EVENTMASK &&& platform.FDE_READ ≠ 0#16) ∧
      ∀ other, other ≠ node → s'.fde other = s.fde other := by
  have still : ¬Fdevent.pending { fde with state := (fde.state &&& FDE_STATEMASK) ||| (events &&& FDE_EVENTMASK) } := by
    rw [Fdevent.pending,replaced_and (by decide)]
    exact idle
  simp only [fdevent_set,State.load,stored,bind,Except.bind,if_neg changed,if_pos active,fdevent_update,setFds,
    if_pos (And.intro least few),if_neg still]
  refine ⟨_,rfl,rfl,rfl,rfl,rfl,Function.update_self _ _ _,?_⟩
  intro other unlike
  simp [State.store,unlike]

/-- Where a first descriptor lies above a slot that memset does not clear, the poll that fails
because it was closed may read a pointer that nobody has stored. -/
theorem poll_past_cleared_slots (platform : Platform Ptr) (fd : Nat) (func : Callback) (node junk : Ptr) (events : Bits)
    (unlisted : node ≠ platform.list) (other : junk ≠ node) (past : platform.cleared fd < fd) (few : fd < FD_SETSIZE)
    (wanted : events &&& FDE_EVENTMASK &&& platform.FDE_READ ≠ 0#16) :
    ∃ memory mid, run platform (initial platform Callback) [.install node fd func (some memory),.set node events] = .ok mid ∧
      mid.read_fds fd = true ∧
      run platform mid [.turn .badFd fun i => i = platform.cleared fd ∨ i = fd] = .error .undefined := by
  have room : fd < doubled fd fd 256 := doubled_gt (by
    have power := @Nat.lt_two_pow_self fd
    omega)
  have small : ¬32000 < fd := by
    simp only [FD_SETSIZE] at few
    omega
  have nonneg : ¬(fd : Int) < 0 := by omega
  let memory : Nat → Option Ptr := fun i => if i = platform.cleared fd then some junk else none
  let base : State Ptr Callback := { initial platform Callback with
    fd_table_max := doubled fd fd 256
    fd_table := fun i => if i < platform.cleared fd then none else memory i }
  let s := base.watching platform node fd func
  have installed : fdevent_install platform (initial platform Callback) node fd func (some memory) = .ok s := by
    simp [fdevent_install,fdevent_register,nonneg,bind,Except.bind,State.store,State.emit,initial,grow,small,fdevent_init,
      fdevent_connect,s,base,State.watching,Fdevent.fresh,Platform.cleared]
    congr
  have stored : s.fde node = some (Fdevent.fresh fd func) := by simp [s,State.watching,State.store]
  have changed : (Fdevent.fresh (fd : Int) func).wanted ≠ events &&& FDE_EVENTMASK := by
    intro same
    rw [← same] at wanted
    exact wanted (by simp [Fdevent.wanted,Fdevent.fresh,FDE_ACTIVE,FDE_EVENTMASK])
  obtain ⟨mid,set,links,table,max,selected,reads,kept⟩ := @set_idle _ _ platform s node (Fdevent.fresh fd func) _ events
    stored (by simp [Fdevent.active,Fdevent.fresh,FDE_ACTIVE]) (by simp [Fdevent.pending,Fdevent.fresh,FDE_ACTIVE,FDE_PENDING])
    changed (Int.natCast_nonneg fd) (Int.ofNat_lt.mpr few)
  have slot (i : Nat) (least : i < fd) : mid.fd_table i = if i = platform.cleared fd then some junk else none := by
    have unlike : i ≠ fd := Nat.ne_of_lt least
    rw [table]
    by_cases low : i < platform.cleared fd
    · simp [s,base,State.watching,unlike,low,Nat.ne_of_lt low]
    · simp [s,base,State.watching,unlike,low,memory]
  have nobody : mid.fde junk = none := by
    rw [kept junk other]
    simp [s,base,State.watching,State.store,initial,other]
  have waits : fdevent_plist_dequeue platform mid = .ok (mid,none) := by
    have alone : mid.links.next platform.list = platform.list := by
      rw [links]
      simp [s,base,State.watching,Links.clear,Links.setNext,Links.setPrev,initial,unlisted.symm]
    simp [fdevent_plist_dequeue,alone]
  have top : mid.select_n = fd+1 := selected
  have size : mid.fd_table_max = doubled fd fd 256 := max
  refine ⟨memory,mid,?_,?_,?_⟩
  · simp only [run,List.foldlM_cons,List.foldlM_nil,step,installed,set,bind,Except.bind]
    rfl
  · rw [show fd = (Fdevent.fresh (fd : Int) func).fd.toNat from rfl,reads]
    exact decide_eq_true wanted
  · have junked := @process_reads_junk _ _ platform mid _ (platform.cleared fd) junk
      (fun i => i = platform.cleared fd ∨ i = fd) (by omega) (by omega) (by omega)
      (fun i below => by rw [slot i (by omega),if_neg (Nat.ne_of_lt below)]) (by rw [slot _ past,if_pos rfl]) nobody (by simp)
    simp only [run,List.foldlM_cons,List.foldlM_nil,step,turn,waits,bind,Except.bind]
    exact congrArg (· >>= pure) junked

theorem poll_past_slot_128 : ∃ memory mid, run sixtyFourBit (initial sixtyFourBit Unit)
    [.install 2 200 () (some memory),.set 2 0x01] = .ok mid ∧ mid.read_fds 200 = true ∧
      run sixtyFourBit mid [.turn .badFd fun i => i = sixtyFourBit.cleared 200 ∨ i = 200] = .error .undefined :=
  poll_past_cleared_slots sixtyFourBit 200 () 2 7 0x01 (by decide) (by decide) (by decide +kernel) (by decide)
    (by decide)

end Libsme.Input.EventLoop
