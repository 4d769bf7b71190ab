import Libsme.Library.Transition
import Mathlib.Data.List.Nodup

/-! The accept loop of socket_server.c and its threads. Each `connect_thread` gets the
address of `new_server_socket`, which has one place on the stack in all turns of the
loop, and reads it when it starts. Main and the threads take their steps in any order. -/
namespace Libsme.Remote

inductive MainPhase where
  | accepting
  | creating
  | leaving
  | exited
deriving DecidableEq

structure Worker where
  socketId : Option Int
  returned : Bool
deriving DecidableEq

structure Server where
  main : MainPhase
  newServerSocket : Option Int
  accepted : List Int
  threads : List Worker
  closed : List Int

inductive Action where
  | accept (newServerSocket : Int)
  | create (created : Bool)
  | start (t : Nat)
  | finish (t : Nat)
  | exit
deriving DecidableEq

def Server.started : Server := ⟨.accepting,none,[],[],[]⟩

/-- No path of `connect_thread` closes its socket; main closes one when it cannot create
the thread. A descriptor in use is not returned by `accept`. -/
def Server.step (server : Server) : Action → Option Server
  | .accept fd =>
    if server.main ≠ .accepting then none
    else if fd < 0 then some { server with newServerSocket := some fd,main := .leaving }
    else if fd ∈ server.accepted then none
    else some { server with newServerSocket := some fd,accepted := server.accepted ++ [fd],main := .creating }
  | .create created =>
    if server.main ≠ .creating then none
    else if created then some { server with threads := server.threads ++ [⟨none,false⟩],main := .accepting }
    else some { server with closed := server.closed ++ server.newServerSocket.toList,main := .leaving }
  | .start t =>
    if server.main = .exited then none
    else if server.threads[t]? = some ⟨none,false⟩ then
      some { server with threads := server.threads.set t ⟨server.newServerSocket,false⟩ }
    else none
  | .finish t =>
    if server.main = .exited then none
    else match server.threads[t]? with
      | some ⟨some socketId,false⟩ => some { server with threads := server.threads.set t ⟨some socketId,true⟩ }
      | _ => none
  | .exit => if server.main = .leaving then some { server with main := .exited } else none

theorem Server.step_cases {server next : Server} {action : Action} (taken : server.step action = some next) :
    (∃ fd, action = .accept fd ∧ server.main = .accepting ∧ fd < 0 ∧
      next = { server with newServerSocket := some fd,main := .leaving }) ∨
    (∃ fd, action = .accept fd ∧ server.main = .accepting ∧ 0 ≤ fd ∧ fd ∉ server.accepted ∧
      next = { server with newServerSocket := some fd,accepted := server.accepted ++ [fd],main := .creating }) ∨
    (action = .create true ∧ server.main = .creating ∧
      next = { server with threads := server.threads ++ [⟨none,false⟩],main := .accepting }) ∨
    (action = .create false ∧ server.main = .creating ∧
      next = { server with closed := server.closed ++ server.newServerSocket.toList,main := .leaving }) ∨
    (∃ t, action = .start t ∧ server.main ≠ .exited ∧ server.threads[t]? = some ⟨none,false⟩ ∧
      next = { server with threads := server.threads.set t ⟨server.newServerSocket,false⟩ }) ∨
    (∃ t socketId, action = .finish t ∧ server.main ≠ .exited ∧
      server.threads[t]? = some ⟨some socketId,false⟩ ∧
      next = { server with threads := server.threads.set t ⟨some socketId,true⟩ }) ∨
    (action = .exit ∧ server.main = .leaving ∧ next = { server with main := .exited }) := by
  cases action with
  | accept fd =>
    simp only [Server.step] at taken
    split at taken
    · exact absurd taken nofun
    · rename_i main
      split at taken
      · exact Or.inl ⟨fd,rfl,not_not.mp main,‹_›,(Option.some.inj taken).symm⟩
      · split at taken
        · exact absurd taken nofun
        · exact Or.inr (Or.inl ⟨fd,rfl,not_not.mp main,by omega,‹_›,(Option.some.inj taken).symm⟩)
  | create created =>
    simp only [Server.step] at taken
    split at taken
    · exact absurd taken nofun
    · rename_i main
      cases created with
      | true => exact Or.inr (Or.inr (Or.inl ⟨rfl,not_not.mp main,(Option.some.inj taken).symm⟩))
      | false => exact Or.inr (Or.inr (Or.inr (Or.inl ⟨rfl,not_not.mp main,(Option.some.inj taken).symm⟩)))
  | start t =>
    simp only [Server.step] at taken
    split at taken
    · exact absurd taken nofun
    · split at taken
      · exact Or.inr (Or.inr (Or.inr (Or.inr (Or.inl ⟨t,rfl,‹_›,‹_›,(Option.some.inj taken).symm⟩))))
      · exact absurd taken nofun
  | finish t =>
    simp only [Server.step] at taken
    split at taken
    · exact absurd taken nofun
    · split at taken
      · exact Or.inr (Or.inr (Or.inr (Or.inr (Or.inr (Or.inl
          ⟨t,_,rfl,‹_›,‹_›,(Option.some.inj taken).symm⟩)))))
      · exact absurd taken nofun
  | exit =>
    simp only [Server.step] at taken
    split at taken
    · exact Or.inr (Or.inr (Or.inr (Or.inr (Or.inr (Or.inr ⟨rfl,‹_›,(Option.some.inj taken).symm⟩)))))
    · exact absurd taken nofun

/-- The thread made for a connection serves it, alone, and closes its socket once. The exit
of main ends the threads that have not returned. -/
structure Server.HandOff (server : Server) : Prop where
  assigned : server.main ≠ .creating → server.threads.length = server.accepted.length
  served : server.main = .exited → ∀ worker ∈ server.threads, worker.returned = true
  own : ∀ (t : Nat) (worker : Worker) (fd : Int), server.threads[t]? = some worker → worker.socketId = some fd →
    server.accepted[t]? = some fd
  alone : ∀ (t u : Nat) (worker other : Worker) (fd : Int), server.threads[t]? = some worker → server.threads[u]? = some other →
    worker.socketId = some fd → other.socketId = some fd → t = u
  closes : ∀ (t : Nat) (worker : Worker) (fd : Int), server.threads[t]? = some worker → server.accepted[t]? = some fd →
    server.closed.count fd = if worker.returned then 1 else 0

/-- Every thread can be created, reads the variable while main still waits for the next
client and does not return, and main ends before there is any. -/
def Server.Condition (server : Server) : Action → Prop
  | .accept _ => True
  | .create created => created = true
  | .start t => server.main = .accepting ∧ server.accepted.length = t+1
  | .finish _ => False
  | .exit => server.threads = []

structure Server.Invariant (server : Server) : Prop where
  distinct : server.accepted.Nodup
  positive : ∀ fd ∈ server.accepted, 0 ≤ fd
  workers : (server.main ≠ .creating → server.threads.length = server.accepted.length) ∧
    (server.main = .creating → server.threads.length+1 = server.accepted.length)
  current : server.main = .accepting ∨ server.main = .creating → server.newServerSocket = server.accepted.getLast?
  failed : server.main = .leaving → ∃ fd < 0, server.newServerSocket = some fd
  ended : server.main = .exited → server.threads = []
  own : ∀ (t : Nat) (worker : Worker) (fd : Int), server.threads[t]? = some worker → worker.socketId = some fd →
    server.accepted[t]? = some fd
  running : ∀ worker ∈ server.threads, worker.returned = false
  opened : server.closed = []

theorem Server.Invariant.handOff {server : Server} (invariant : server.Invariant) : server.HandOff := by
  refine ⟨invariant.workers.1,?_,invariant.own,?_,?_⟩
  · intro exited worker member
    rw [invariant.ended exited] at member
    exact absurd member List.not_mem_nil
  · intro t u worker other fd left right mine theirs
    have first := invariant.own t worker fd left mine
    have second := invariant.own u other fd right theirs
    obtain ⟨bound,_⟩ := List.getElem?_eq_some_iff.mp first
    exact (List.getElem?_inj bound invariant.distinct).mp (first.trans second.symm)
  · intro t worker fd found accepted
    rw [invariant.running worker (List.mem_of_getElem? found),invariant.opened]
    rfl

theorem Server.Invariant.started : Server.started.Invariant :=
  ⟨List.nodup_nil,nofun,⟨fun _ => rfl,nofun⟩,fun _ => rfl,nofun,nofun,nofun,nofun,rfl⟩

section Steps
variable {server : Server}

private theorem Server.Invariant.acceptFailed (invariant : server.Invariant) (main : server.main = .accepting)
    {fd : Int} (failed : fd < 0) :
    Server.Invariant { server with newServerSocket := some fd,main := .leaving } := by
  have same := invariant.workers.1 (by simp [main])
  exact ⟨invariant.distinct,invariant.positive,⟨fun _ => same,nofun⟩,by simp,fun _ => ⟨fd,failed,rfl⟩,nofun,
    invariant.own,invariant.running,invariant.opened⟩

private theorem Server.Invariant.acceptTaken (invariant : server.Invariant) (main : server.main = .accepting)
    {fd : Int} (good : 0 ≤ fd) (fresh : fd ∉ server.accepted) :
    Server.Invariant
      { server with newServerSocket := some fd,accepted := server.accepted ++ [fd],main := .creating } := by
  have same := invariant.workers.1 (by simp [main])
  refine ⟨?_,?_,⟨by simp,?_⟩,?_,nofun,nofun,?_,invariant.running,invariant.opened⟩
  · exact invariant.distinct.append (List.nodup_singleton fd) (by simpa using fresh)
  · intro other member
    obtain member | member := List.mem_append.mp member
    · exact invariant.positive other member
    · rw [List.mem_singleton.mp member]
      exact good
  · intro _
    simp [same]
  · intro _
    simp
  · intro t worker other found socket
    obtain ⟨bound,_⟩ := List.getElem?_eq_some_iff.mp found
    have kept : (server.accepted ++ [fd])[t]? = server.accepted[t]? :=
      List.getElem?_append_left (Nat.lt_of_lt_of_eq bound same)
    exact kept.trans (invariant.own t worker other found socket)

private theorem Server.Invariant.created (invariant : server.Invariant) (main : server.main = .creating) :
    Server.Invariant { server with threads := server.threads ++ [⟨none,false⟩],main := .accepting } := by
  have count := invariant.workers.2 main
  refine ⟨invariant.distinct,invariant.positive,⟨by simp [count],nofun⟩,
    fun _ => invariant.current (Or.inr main),nofun,nofun,?_,?_,invariant.opened⟩
  · intro t worker fd found socket
    by_cases old : t < server.threads.length
    · rw [List.getElem?_append_left old] at found
      exact invariant.own t worker fd found socket
    · -- the new thread has read nothing
      rw [List.getElem?_append_right (by omega)] at found
      obtain rfl := List.mem_singleton.mp (List.mem_of_getElem? found)
      exact absurd socket nofun
  · intro worker member
    obtain member | member := List.mem_append.mp member
    · exact invariant.running worker member
    · rw [List.mem_singleton.mp member]

/-- The client whose thread cannot be created keeps none. -/
private theorem Server.Invariant.createFailed_fails (invariant : server.Invariant) (main : server.main = .creating) :
    ¬Server.HandOff { server with closed := server.closed ++ server.newServerSocket.toList,main := .leaving } := by
  intro handOff
  have assigned := handOff.assigned nofun
  have count := invariant.workers.2 main
  dsimp only at assigned
  omega

private theorem Server.Invariant.start (invariant : server.Invariant) {t : Nat}
    (waiting : server.threads[t]? = some ⟨none,false⟩)
    (condition : server.main = .accepting ∧ server.accepted.length = t+1) :
    Server.Invariant { server with threads := server.threads.set t ⟨server.newServerSocket,false⟩ } := by
  obtain ⟨main,latest⟩ := condition
  have current := invariant.current (Or.inl main)
  rw [List.getLast?_eq_getElem?,latest,Nat.add_sub_cancel] at current
  refine ⟨invariant.distinct,invariant.positive,by simpa using invariant.workers,invariant.current,
    invariant.failed,by simp [main],?_,?_,invariant.opened⟩
  · intro u worker fd found socket
    by_cases same : t = u
    · subst same
      have bound := (List.getElem?_eq_some_iff.mp waiting).1
      rw [List.getElem?_set_self bound] at found
      obtain rfl := Option.some.inj found
      exact current.symm.trans socket
    · rw [List.getElem?_set_ne same] at found
      exact invariant.own u worker fd found socket
  · intro worker member
    obtain member | rfl := List.mem_or_eq_of_mem_set member
    · exact invariant.running worker member
    · rfl

private theorem Server.Invariant.exit (invariant : server.Invariant) (main : server.main = .leaving)
    (unused : server.threads = []) : Server.Invariant { server with main := .exited } := by
  have same := invariant.workers.1 (by simp [main])
  exact ⟨invariant.distinct,invariant.positive,⟨fun _ => same,nofun⟩,by simp,nofun,fun _ => unused,invariant.own,
    invariant.running,invariant.opened⟩

private theorem Server.Invariant.start_needed (invariant : server.Invariant) {t : Nat}
    (alive : server.main ≠ .exited) (waiting : server.threads[t]? = some ⟨none,false⟩)
    (handOff : Server.HandOff { server with threads := server.threads.set t ⟨server.newServerSocket,false⟩ }) :
    server.main = .accepting ∧ server.accepted.length = t+1 := by
  have bound := (List.getElem?_eq_some_iff.mp waiting).1
  have read {fd : Int} (held : server.newServerSocket = some fd) : server.accepted[t]? = some fd :=
    handOff.own t ⟨server.newServerSocket,false⟩ fd (List.getElem?_set_self bound) held
  have index (looping : server.main = .accepting ∨ server.main = .creating)
      (inside : server.accepted.length-1 < server.accepted.length) : server.accepted.length-1 = t := by
    have last := invariant.current looping
    rw [List.getLast?_eq_getElem?,List.getElem?_eq_getElem inside] at last
    have found := read last
    rw [← List.getElem?_eq_getElem inside] at found
    exact (List.getElem?_inj inside invariant.distinct).mp found.symm
  cases main : server.main with
  | accepting =>
    have count := invariant.workers.1 (by simp [main])
    have last := index (Or.inl main) (by omega)
    exact ⟨rfl,by omega⟩
  | creating =>
    have count := invariant.workers.2 main
    have last := index (Or.inr main) (by omega)
    omega
  | leaving =>
    obtain ⟨fd,negative,held⟩ := invariant.failed main
    have positive := invariant.positive fd (List.mem_of_getElem? (read held))
    omega
  | exited => exact absurd main alive

private theorem Server.Invariant.finish_fails (invariant : server.Invariant) {t : Nat} {socketId : Int}
    (serving : server.threads[t]? = some ⟨some socketId,false⟩) :
    ¬Server.HandOff { server with threads := server.threads.set t ⟨some socketId,true⟩ } := by
  intro handOff
  have bound := (List.getElem?_eq_some_iff.mp serving).1
  have owned := invariant.own t _ socketId serving rfl
  have once := handOff.closes t ⟨some socketId,true⟩ socketId (List.getElem?_set_self bound) owned
  rw [invariant.opened] at once
  exact absurd once (by simp)

private theorem Server.Invariant.exit_needed (invariant : server.Invariant)
    (handOff : Server.HandOff { server with main := .exited }) : server.threads = [] := by
  apply List.eq_nil_iff_forall_not_mem.mpr
  intro worker member
  have returned := handOff.served rfl worker member
  rw [invariant.running worker member] at returned
  exact absurd returned nofun

end Steps

/-- The hand-off works in exactly the runs in which every thread is created and reads the
variable before the next `accept` returns, no thread returns, and main exits without any. -/
theorem handOff_iff (actions : List Action) :
    Transition.Throughout Server.step Server.HandOff Server.started actions ↔
      Transition.Meets Server.step Server.Condition Server.started actions := by
  apply Transition.throughout_iff_meets Server.Invariant
  · intro server invariant
    exact invariant.handOff
  · intro server action next invariant taken condition
    obtain ⟨fd,rfl,main,failed,rfl⟩ | ⟨fd,rfl,main,good,fresh,rfl⟩ | ⟨rfl,main,rfl⟩ | ⟨rfl,main,rfl⟩ |
      ⟨t,rfl,alive,waiting,rfl⟩ | ⟨t,socketId,rfl,_⟩ | ⟨rfl,main,rfl⟩ := Server.step_cases taken
    · exact invariant.acceptFailed main failed
    · exact invariant.acceptTaken main good fresh
    · exact invariant.created main
    · exact absurd condition nofun
    · exact invariant.start waiting condition
    · exact absurd condition id
    · exact invariant.exit main condition
  · intro server action next invariant taken handOff
    obtain ⟨fd,rfl,_⟩ | ⟨fd,rfl,_⟩ | ⟨rfl,_⟩ | ⟨rfl,main,rfl⟩ | ⟨t,rfl,alive,waiting,rfl⟩ |
      ⟨t,socketId,rfl,alive,serving,rfl⟩ | ⟨rfl,main,rfl⟩ := Server.step_cases taken
    · trivial
    · trivial
    · exact rfl
    · exact absurd handOff (invariant.createFailed_fails main)
    · exact invariant.start_needed alive waiting handOff
    · exact absurd handOff (invariant.finish_fails serving)
    · exact invariant.exit_needed handOff
  · exact Server.Invariant.started

/-- Two clients in quick succession: the second is served twice and the first not at all. -/
theorem handOff_fails :
    ¬Transition.Throughout Server.step Server.HandOff Server.started
      [.accept 4,.create true,.accept 5,.create true,.start 0,.start 1] := by
  intro holds
  have served := (((((holds.2 _ rfl).2 _ rfl).2 _ rfl).2 _ rfl).2 _ rfl).2 _ rfl
  have twice := served.alone 0 1 ⟨some 5,false⟩ ⟨some 5,false⟩ 5 rfl rfl rfl rfl
  exact absurd twice (by decide)

end Libsme.Remote
