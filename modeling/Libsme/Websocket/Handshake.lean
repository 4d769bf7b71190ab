import Libsme.Library.Transition
import Libsme.Websocket.Server

/-! Whole runs of the servers, from `accept` on: main.c with its one connection, and
main.cpp, where main answers the first request of a connection and hands it to a
thread of its own. The threads and main take their steps in any order. -/
namespace Libsme.Websocket
open Memory (cstr)

inductive Phase where
  | request
  | frames
  | gone
deriving DecidableEq

structure Connection where
  connfd : Int
  phase : Phase
  log : List Event

/-- One turn of the loop; `connected` is 0 in the request phase and 1 afterwards. -/
def Connection.step (connection : Connection) (turn : MainTurn) : Option Connection :=
  if connection.phase = .gone then none
  else
    let run := mainLoop connection.connfd (decide (connection.phase = .frames)) turn
    some ⟨connection.connfd,if run.value = none then .gone else .frames,connection.log ++ run.log⟩

structure Thread where
  connection : Connection
  buf : List UInt8

/-- `pending` is the descriptor whose first request main is about to read. -/
structure Server where
  pending : Option Int
  threads : List Thread

inductive Action where
  | accept (connfd : Int)
  | request (received : Received requestLenMaxCpp) (connected : Int) (created : Bool) (stale : List UInt8)
  | serve (i : Nat) (turn : AcceptedTurn)

/-- The first read and its answer. `connected` is the field of `*web_d`, which `new` leaves
uninitialised; `created` says that `pthread_create` has started the thread. -/
def firstRequest (connfd : Int) (received : Received requestLenMaxCpp) (connected : Int) (created : Bool) :
    Traced Event Phase := do
  Traced.emit (.read received.n)
  if connected = 0 then do
    answer connfd (received.fill (List.replicate requestLenMaxCpp 0))
    pure (if created then .frames else .gone)
  else pure .gone

def Thread.serve (thread : Thread) (turn : AcceptedTurn) : Thread :=
  let connection := thread.connection
  let run := acceptedFunc connection.connfd thread.buf turn
  match run.value with
  | none => ⟨⟨connection.connfd,.gone,connection.log ++ run.log⟩,thread.buf⟩
  | some buf => ⟨⟨connection.connfd,.frames,connection.log ++ run.log⟩,buf⟩

def Server.step (server : Server) : Action → Option Server
  | .accept connfd =>
    match server.pending with
    | none => some ⟨some connfd,server.threads⟩
    | some _ => none
  | .request received connected created stale =>
    match server.pending with
    | none => none
    | some connfd =>
      let run := firstRequest connfd received connected created
      some ⟨none,server.threads ++ [⟨⟨connfd,run.value,run.log⟩,stale⟩]⟩
  | .serve i turn =>
    match server.threads[i]? with
    | none => none
    | some thread =>
      if thread.connection.phase = .frames then
        some ⟨server.pending,server.threads.set i (thread.serve turn)⟩
      else none

def Server.start : Server := ⟨none,[]⟩

def IsUpgrade : Event → Prop
  | .write block => ∃ serverKey, block = responseHeader serverKey
  | _ => False

/-- A block with the first byte of a final text frame. -/
def IsFrame : Event → Prop
  | .write block => block.head? = some 0x81
  | _ => False

structure Connection.Guarded (connection : Connection) : Prop where
  opened : Preceded IsUpgrade IsFrame connection.log
  refused : .computeAcceptKey none ∈ connection.log → connection.phase ≠ .frames

/-- The invariant: once frames are handled, the upgrade has been written, unless the
descriptor is 0 and nothing is ever written. -/
structure Connection.Sound (connection : Connection) : Prop where
  opened : Preceded IsUpgrade IsFrame connection.log
  ready : connection.phase = .frames → .computeAcceptKey none ∉ connection.log ∧
    (connection.connfd = 0 ∨ ∃ event ∈ connection.log, IsUpgrade event)

theorem Connection.Sound.guarded {connection : Connection} (sound : connection.Sound) : connection.Guarded :=
  ⟨sound.opened,fun member phase => (sound.ready phase).1 member⟩

private theorem not_isFrame_responseHeader (serverKey : List UInt8) :
    ¬IsFrame (.write (responseHeader serverKey)) := by
  have status : (Semantics.Rfc4648.ascii "HTTP/1.1 101 Switching Protocols\r\n").head? = some 0x48 := by decide
  simp [IsFrame,responseHeader,List.head?_append,status]

private theorem answer_log (connfd : Int) (buf : List UInt8) : (answer connfd buf).log =
    .computeAcceptKey (computeAcceptKey (some buf)).value::
      (shakeHand connfd (computeAcceptKey (some buf)).value).log := by
  simp [answer]

private theorem answered_sound (connfd n : Int) (buf : List UInt8) (phase : Phase)
    (carries : phase = .frames → flag <:+: cstr buf) :
    Connection.Sound ⟨connfd,phase,.read n::(answer connfd buf).log⟩ := by
  rw [answer_log]
  constructor
  · apply Preceded.of_none
    rw [List.forall_mem_cons,List.forall_mem_cons]
    refine ⟨id,id,?_⟩
    unfold shakeHand
    split
    · exact List.forall_mem_nil _
    · split
      · exact List.forall_mem_nil _
      · simp [not_isFrame_responseHeader]
  · intro frames
    obtain ⟨serverKey,found⟩ : ∃ serverKey, (computeAcceptKey (some buf)).value = some serverKey := by
      apply Option.ne_none_iff_exists'.mp
      rw [ne_eq,computeAcceptKey_null_iff,not_not]
      exact carries frames
    rw [found]
    by_cases zero : connfd = 0
    · exact ⟨by simp [shakeHand,zero],Or.inl zero⟩
    · have written : Event.write (responseHeader serverKey) ∈ .read n::.computeAcceptKey (some serverKey)::
          (shakeHand connfd (some serverKey)).log := by simp [shakeHand,zero]
      exact ⟨by simp [shakeHand,zero],Or.inr ⟨_,written,serverKey,rfl⟩⟩

private theorem answered_carries {connfd n : Int} {buf : List UInt8}
    (guarded : Connection.Guarded ⟨connfd,.frames,.read n::(answer connfd buf).log⟩) : flag <:+: cstr buf := by
  by_contra absent
  apply guarded.refused _ rfl
  rw [answer_log,(computeAcceptKey_null_iff buf).mpr absent]
  simp

def Serves (connfd : Int) : Event → Prop
  | .computeAcceptKey serverKey => serverKey ≠ none
  | .write _ => connfd ≠ 0
  | _ => True

private theorem Connection.Sound.serve {connection : Connection} (sound : connection.Sound)
    (frames : connection.phase = .frames) (phase : Phase) {more : List Event}
    (serves : ∀ event ∈ more, Serves connection.connfd event) :
    Connection.Sound ⟨connection.connfd,phase,connection.log ++ more⟩ := by
  obtain ⟨keyed,opened⟩ := sound.ready frames
  constructor
  · apply sound.opened.append
    obtain zero | upgraded := opened
    · -- nothing is written to descriptor 0
      apply Or.inr
      intro event member frame
      cases event with
      | write block => exact serves _ member zero
      | _ => exact frame
    · exact Or.inl upgraded
  · intro _
    constructor
    · rw [List.mem_append,not_or]
      exact ⟨keyed,fun member => serves _ member rfl⟩
    · obtain zero | ⟨event,member,upgrade⟩ := opened
      · exact Or.inl zero
      · exact Or.inr ⟨event,List.mem_append_left _ member,upgrade⟩

private theorem response_serves (connfd : Int) (garbage : Bool) (message : Option (List UInt8)) :
    ∀ event ∈ (response connfd garbage message).log, Serves connfd event := by
  rw [response_log,List.forall_mem_cons]
  refine ⟨trivial,?_⟩
  by_cases returns : connfd = 0 ∨ garbage = false
  · rw [if_pos returns]
    exact List.forall_mem_nil _
  · rw [if_neg returns,List.forall_mem_cons]
    refine ⟨trivial,?_⟩
    cases message with
    | none => exact List.forall_mem_nil _
    | some message => exact sendFrame_always (Serves connfd) (fun _ => (not_or.mp returns).1) message

private theorem mainLoop_serves (connfd : Int) (turn : MainTurn) :
    ∀ event ∈ (mainLoop connfd true turn).log, Serves connfd event := by
  rw [mainLoop_log,List.forall_mem_cons,List.forall_mem_cons]
  exact ⟨trivial,trivial,response_serves _ _ _⟩

private theorem acceptedFunc_serves (connfd : Int) (buf : List UInt8) (turn : AcceptedTurn) :
    ∀ event ∈ (acceptedFunc connfd buf turn).log, Serves connfd event := by
  by_cases stopped : turn.received.n < 0
  · rw [acceptedFunc_stopped stopped,List.forall_mem_cons,List.forall_mem_cons]
    exact ⟨trivial,trivial,List.forall_mem_nil _⟩
  · rw [acceptedFunc_served stopped,List.forall_mem_cons,List.forall_mem_cons]
    exact ⟨trivial,trivial,response_serves _ _ _⟩

def Connection.Carries (connection : Connection) (turn : MainTurn) : Prop :=
  0 ≤ connection.connfd → connection.phase = .request → flag <:+: cstr turn.buf

def Connection.Invariant (connection : Connection) : Prop :=
  (connection.phase = .request → connection.log = []) ∧ (0 ≤ connection.connfd → connection.Sound)

private theorem request_run (connfd : Int) (turn : MainTurn) :
    (mainLoop connfd false turn).value = some true ∧
      (mainLoop connfd false turn).log = .read turn.received.n::(answer connfd turn.buf).log := by
  simp [mainLoop]

private theorem step_request {connfd : Int} {turn : MainTurn} {next : Connection}
    (taken : Connection.step ⟨connfd,.request,[]⟩ turn = some next) :
    next = ⟨connfd,.frames,.read turn.received.n::(answer connfd turn.buf).log⟩ := by
  obtain ⟨stays,log⟩ := request_run connfd turn
  simpa [Connection.step,stays,log] using taken.symm

private theorem step_frames {connfd : Int} {log : List Event} {turn : MainTurn} {next : Connection}
    (taken : Connection.step ⟨connfd,.frames,log⟩ turn = some next) :
    next = ⟨connfd,if (mainLoop connfd true turn).value = none then .gone else .frames,
      log ++ (mainLoop connfd true turn).log⟩ := by
  simpa [Connection.step] using taken.symm

private theorem step_gone {connfd : Int} {log : List Event} {turn : MainTurn} {next : Connection} :
    Connection.step ⟨connfd,.gone,log⟩ turn ≠ some next := by
  simp [Connection.step]

theorem main_guarded_iff (connfd : Int) (turns : List MainTurn) :
    Transition.Throughout Connection.step (fun connection => 0 ≤ connection.connfd → connection.Guarded)
        ⟨connfd,.request,[]⟩ turns ↔
      Transition.Meets Connection.step Connection.Carries ⟨connfd,.request,[]⟩ turns := by
  apply Transition.throughout_iff_meets Connection.Invariant
  · intro connection holds real
    exact (holds.2 real).guarded
  · rintro ⟨connfd,phase,log⟩ turn next holds taken carries
    cases phase with
    | request =>
      obtain rfl : log = [] := holds.1 rfl
      obtain rfl := step_request taken
      exact ⟨nofun,fun real => answered_sound connfd _ _ _ fun _ => carries real rfl⟩
    | frames =>
      obtain rfl := step_frames taken
      refine ⟨?_,fun real => (holds.2 real).serve rfl _ (mainLoop_serves connfd turn)⟩
      intro phase
      dsimp only at phase
      split at phase <;> exact absurd phase nofun
    | gone => exact absurd taken step_gone
  · rintro ⟨connfd,phase,log⟩ turn next holds taken guarded real request
    obtain rfl : phase = .request := request
    obtain rfl : log = [] := holds.1 rfl
    obtain rfl := step_request taken
    exact answered_carries (guarded real)
  · exact ⟨fun _ => rfl,fun _ => ⟨Preceded.of_none nofun,nofun⟩⟩

/-- A first request that is answered and handed to a thread carries the flag. -/
def Server.Carries (server : Server) : Action → Prop
  | .request received connected created _ => ∀ connfd, server.pending = some connfd → 0 ≤ connfd →
    connected = 0 → created = true → flag <:+: cstr (received.fill (List.replicate requestLenMaxCpp 0))
  | _ => True

def Server.Guarded (server : Server) : Prop :=
  ∀ thread ∈ server.threads, 0 ≤ thread.connection.connfd → thread.connection.Guarded

def Server.Invariant (server : Server) : Prop :=
  ∀ thread ∈ server.threads, 0 ≤ thread.connection.connfd → thread.connection.Sound

private theorem firstRequest_answered (connfd : Int) (received : Received requestLenMaxCpp) (created : Bool) :
    firstRequest connfd received 0 created = ⟨if created then .frames else .gone,.read received.n::
      (answer connfd (received.fill (List.replicate requestLenMaxCpp 0))).log⟩ := by
  apply Traced.ext <;> simp [firstRequest]

private theorem firstRequest_dropped (connfd : Int) (received : Received requestLenMaxCpp) {connected : Int}
    (stale : connected ≠ 0) (created : Bool) :
    firstRequest connfd received connected created = ⟨.gone,[.read received.n]⟩ := by
  apply Traced.ext <;> simp [firstRequest,stale]

private theorem firstRequest_sound (connfd : Int) (received : Received requestLenMaxCpp) (connected : Int)
    (created : Bool) (carries : connected = 0 → created = true →
      flag <:+: cstr (received.fill (List.replicate requestLenMaxCpp 0))) :
    Connection.Sound ⟨connfd,(firstRequest connfd received connected created).value,
      (firstRequest connfd received connected created).log⟩ := by
  by_cases fresh : connected = 0
  · subst fresh
    rw [firstRequest_answered]
    apply answered_sound
    intro started
    cases created with
    | true => exact carries rfl rfl
    | false => exact absurd started (by simp)
  · rw [firstRequest_dropped connfd received fresh]
    refine ⟨Preceded.of_none ?_,nofun⟩
    rw [List.forall_mem_singleton]
    exact nofun

private theorem Thread.serve_sound {thread : Thread} (sound : thread.connection.Sound)
    (frames : thread.connection.phase = .frames) (turn : AcceptedTurn) :
    (thread.serve turn).connection.Sound := by
  have served (phase : Phase) := sound.serve frames phase
    (acceptedFunc_serves thread.connection.connfd thread.buf turn)
  unfold Thread.serve
  dsimp only
  split <;> exact served _

private theorem Thread.serve_connfd (thread : Thread) (turn : AcceptedTurn) :
    (thread.serve turn).connection.connfd = thread.connection.connfd := by
  unfold Thread.serve
  dsimp only
  split <;> rfl

theorem Server.step_cases {server next : Server} {action : Action} (taken : server.step action = some next) :
    (∃ connfd, action = .accept connfd ∧ next = ⟨some connfd,server.threads⟩) ∨
    (∃ connfd received connected created stale, action = .request received connected created stale ∧
      server.pending = some connfd ∧
      next = ⟨none,server.threads ++ [⟨⟨connfd,(firstRequest connfd received connected created).value,
        (firstRequest connfd received connected created).log⟩,stale⟩]⟩) ∨
    ∃ i turn thread, action = .serve i turn ∧ server.threads[i]? = some thread ∧
      thread.connection.phase = .frames ∧
      next = ⟨server.pending,server.threads.set i (thread.serve turn)⟩ := by
  obtain ⟨pending,threads⟩ := server
  cases action with
  | accept connfd =>
    cases pending with
    | none => exact Or.inl ⟨connfd,rfl,(Option.some.inj taken).symm⟩
    | some _ => exact absurd taken nofun
  | request received connected created stale =>
    cases pending with
    | none => exact absurd taken nofun
    | some connfd =>
      exact Or.inr (Or.inl ⟨connfd,received,connected,created,stale,rfl,rfl,(Option.some.inj taken).symm⟩)
  | serve i turn =>
    simp only [Server.step] at taken
    cases found : threads[i]? with
    | none => simp [found] at taken
    | some thread =>
      simp only [found] at taken
      split at taken
      · exact Or.inr (Or.inr ⟨i,turn,thread,rfl,found,‹_›,(Option.some.inj taken).symm⟩)
      · exact absurd taken nofun

theorem server_guarded_iff (actions : List Action) :
    Transition.Throughout Server.step Server.Guarded Server.start actions ↔
      Transition.Meets Server.step Server.Carries Server.start actions := by
  apply Transition.throughout_iff_meets Server.Invariant
  · intro server holds thread member real
    exact (holds thread member real).guarded
  · intro server action next holds taken carries
    obtain ⟨connfd,rfl,rfl⟩ | ⟨connfd,received,connected,created,stale,rfl,pending,rfl⟩ |
      ⟨i,turn,thread,rfl,found,frames,rfl⟩ := Server.step_cases taken
    · exact holds
    · intro thread member real
      obtain member | member := List.mem_append.mp member
      · exact holds thread member real
      · obtain rfl := List.mem_singleton.mp member
        exact firstRequest_sound connfd received connected created (carries connfd pending real)
    · intro other member real
      obtain member | rfl := List.mem_or_eq_of_mem_set member
      · exact holds other member real
      · rw [Thread.serve_connfd] at real
        exact Thread.serve_sound (holds thread (List.mem_of_getElem? found) real) frames turn
  · intro server action next holds taken guarded
    obtain ⟨connfd,rfl,rfl⟩ | ⟨connfd,received,connected,created,stale,rfl,pending,rfl⟩ |
      ⟨i,turn,thread,rfl,found,frames,rfl⟩ := Server.step_cases taken
    · trivial
    · rintro other waiting real rfl rfl
      obtain rfl := Option.some.inj (pending.symm.trans waiting)
      have last := guarded _ (List.mem_append_right _ (List.mem_singleton_self _)) real
      rw [firstRequest_answered] at last
      exact answered_carries last
    · trivial
  · exact nofun

/-- No frame is written before the handshake, and no refused connection is served, in
exactly the runs in which every first request that is answered carries the flag. -/
theorem servers_guarded_iff (connfd : Int) (turns : List MainTurn) (actions : List Action) :
    (Transition.Throughout Connection.step (fun connection => 0 ≤ connection.connfd → connection.Guarded)
          ⟨connfd,.request,[]⟩ turns ↔
        Transition.Meets Connection.step Connection.Carries ⟨connfd,.request,[]⟩ turns) ∧
      (Transition.Throughout Server.step Server.Guarded Server.start actions ↔
        Transition.Meets Server.step Server.Carries Server.start actions) :=
  ⟨main_guarded_iff connfd turns,server_guarded_iff actions⟩

def oneFrame : List UInt8 := [0x81,0x83,0,0,0,0,0x6F,0x6E,0x65]

/-- After an empty first request both servers go on to frames, and main.c sends one back. -/
theorem servers_not_guarded :
    ¬Transition.Throughout Connection.step (fun connection => 0 ≤ connection.connfd → connection.Guarded)
        ⟨4,.request,[]⟩ [⟨endOfStream _,true,[]⟩] ∧
      ¬Transition.Throughout Server.step Server.Guarded Server.start
        [.accept 4,.request (endOfStream _) 0 true (List.replicate requestLenMaxCpp 0)] ∧
      ¬Preceded IsUpgrade IsFrame (Traced.loop (mainLoop 4) false
        [⟨endOfStream _,true,[]⟩,⟨receive oneFrame (by decide),true,[0]⟩]) := by
  have absent (limit : Nat) : ¬flag <:+: cstr ((endOfStream limit).fill (List.replicate limit 0)) := by
    have empty : cstr ((endOfStream limit).fill (List.replicate limit 0)) = [] := by
      cases limit <;> rfl
    rw [empty]
    decide
  refine ⟨?_,?_,?_⟩
  · intro holds
    have carries := ((main_guarded_iff 4 _).mp holds _ rfl).1 (by decide) rfl
    exact absent requestLenMaxC carries
  · intro holds
    have carries := (((server_guarded_iff _).mp holds _ rfl).2 _ rfl).1 4 rfl (by decide) rfl rfl
    exact absent requestLenMaxCpp carries
  · have log : Traced.loop (mainLoop 4) false
        [⟨endOfStream _,true,[]⟩,⟨receive oneFrame (by decide),true,[0]⟩] =
        [.read 0,.computeAcceptKey none,.read 9,.analyData (some [0x6F,0x6E,0x65]),
          .response (some [0x6F,0x6E,0x65,0]),.packData (some [0x6F,0x6E,0x65,0])] ++
          .write [0x81,3,0x6F,0x6E,0x65]::[] := by decide +kernel
    intro preceded
    obtain ⟨earlier,member,upgrade⟩ := preceded _ _ _ log rfl
    cases earlier with
    | write block => simp at member
    | _ => exact upgrade

end Libsme.Websocket
