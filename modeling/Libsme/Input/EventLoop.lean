import Libsme.Library.Links
import Mathlib.Data.BitVec

/-! The select loop of in_event.c: the table of the fdevents, the sets that select is given and
the circular list of the fdevents whose function is to be called. -/
namespace Libsme.Input.EventLoop

/-- state and events are unsigned shorts. -/
abbrev Bits := BitVec 16

def FDE_EVENTMASK : Bits := 0x00ff
def FDE_STATEMASK : Bits := 0xff00
def FDE_ACTIVE : Bits := 0x0100
def FDE_PENDING : Bits := 0x0200
def FDE_CREATED : Bits := 0x0400

def FD_SETSIZE : Nat := 1024

/-- The addresses of list_pending and of nothing, the sizes of int and of a pointer, and the
masks of fdevent.h. -/
structure Platform (Ptr : Type) where
  list : Ptr
  null : Ptr
  sizeofInt : Nat
  sizeofPointer : Nat
  FDE_READ : Bits
  FDE_WRITE : Bits
  FDE_ERROR : Bits
  FDE_DONT_CLOSE : Bits
  pointer : sizeofInt ≤ sizeofPointer
  read : FDE_READ ≠ 0#16
  write : FDE_WRITE ≠ 0#16
  error : FDE_ERROR ≠ 0#16
  dontClose : FDE_DONT_CLOSE &&& FDE_EVENTMASK = FDE_DONT_CLOSE

/-- `func` is the function together with its argument; the links are kept apart. -/
structure Fdevent (Callback : Type) where
  fd : Int
  force_eof : Bool
  state : Bits
  events : Bits
  func : Callback

namespace Fdevent
variable {Callback : Type} (fde : Fdevent Callback)

def pending : Prop := fde.state &&& FDE_PENDING ≠ 0#16
def active : Prop := fde.state &&& FDE_ACTIVE ≠ 0#16
def created : Prop := fde.state &&& FDE_CREATED ≠ 0#16
def wanted : Bits := fde.state &&& FDE_EVENTMASK

instance : Decidable fde.pending := inferInstanceAs (Decidable (_ ≠ _))
instance : Decidable fde.active := inferInstanceAs (Decidable (_ ≠ _))
instance : Decidable fde.created := inferInstanceAs (Decidable (_ ≠ _))

end Fdevent

/-- Why the process ends: the messages of FATAL, or a pointer or an fd_set used out of bounds. -/
inductive Stop where
  | negativeFd | hugeFd | noTable | outOfRange | outOfSync | missingFde | unreadable | notCreated
  | noSocketpair | noHandler | undefined

inductive Effect (Callback : Type) where
  | nonblock (fd : Int)
  | close (fd : Int)
  | call (func : Callback) (fd : Int) (events : Bits)

structure State (Ptr Callback : Type) where
  links : Links Ptr
  fde : Ptr → Option (Fdevent Callback)
  fd_table : Nat → Option Ptr
  fd_table_max : Nat
  read_fds : Nat → Bool
  write_fds : Nat → Bool
  error_fds : Nat → Bool
  select_n : Nat
  log : List (Effect Callback)

/-- How select returns; `ready` tells what the kernel would report of any descriptor. -/
inductive Select where
  | ready (read write error : Nat → Bool)
  | interrupted
  | badFd
  | failed

variable {Ptr Callback : Type} [DecidableEq Ptr] (platform : Platform Ptr)

namespace State
variable (s : State Ptr Callback)

def load (node : Ptr) : Except Stop (Fdevent Callback) :=
  match s.fde node with
  | some fde => .ok fde
  | none => .error .undefined

def store (node : Ptr) (fde : Fdevent Callback) : State Ptr Callback :=
  { s with fde := Function.update s.fde node (some fde) }

def emit (effect : Effect Callback) : State Ptr Callback := { s with log := s.log ++ [effect] }

/-- Whether a link can be written through the pointer. -/
def linkable (node : Ptr) : Bool := node = platform.list || (s.fde node).isSome

end State

def fdevent_plist_enqueue (s : State Ptr Callback) (node : Ptr) : Except Stop (State Ptr Callback) :=
  if s.linkable platform (s.links.prev platform.list) then
    .ok { s with links := s.links.enqueue platform.list node }
  else .error .undefined

def fdevent_plist_remove (s : State Ptr Callback) (node : Ptr) : Except Stop (State Ptr Callback) :=
  if s.linkable platform (s.links.prev node) ∧ s.linkable platform (s.links.next node) then
    .ok { s with links := (s.links.bypass node).clear node platform.null }
  else .error .undefined

def fdevent_plist_dequeue (s : State Ptr Callback) : Except Stop (State Ptr Callback × Option Ptr) :=
  let node := s.links.next platform.list
  if node = platform.list then .ok (s,none)
  else if (s.fde node).isSome ∧ s.linkable platform (s.links.next node) then
    .ok ({ s with links := (s.links.behead platform.list).clear node platform.null },some node)
  else .error .undefined

/-- while(fd_table_max <= fde->fd) fd_table_max *= 2; with at most so many turns. -/
def doubled (fd : Nat) : Nat → Nat → Nat
  | 0, max => max
  | turns+1, max => if max ≤ fd then doubled fd turns (max*2) else max

/-- fdevent_init, where the table is made. -/
def fdevent_init (s : State Ptr Callback) : State Ptr Callback :=
  { s with read_fds := fun _ => false, write_fds := fun _ => false, error_fds := fun _ => false }

/-- The table with room for the descriptor; `memory` is what realloc leaves in its new slots,
and memset takes the size of an int for that of a slot. -/
def grow (s : State Ptr Callback) (fd : Nat) (memory : Option (Nat → Option Ptr)) :
    Except Stop (State Ptr Callback) :=
  if 32000 < fd then .error .hugeFd
  else
    let oldmax := s.fd_table_max
    let s := if oldmax = 0 then { fdevent_init s with fd_table_max := 256 } else s
    let max := doubled fd fd s.fd_table_max
    match memory with
    | none => .error .noTable
    | some memory =>
      let zeroed := platform.sizeofInt*(max-oldmax)/platform.sizeofPointer
      .ok { s with
        fd_table_max := max
        fd_table := fun i => if i < oldmax then s.fd_table i else if i < oldmax+zeroed then none else memory i }

def fdevent_register (s : State Ptr Callback) (node : Ptr) (fd : Int) (memory : Option (Nat → Option Ptr)) :
    Except Stop (State Ptr Callback) :=
  if fd < 0 then .error .negativeFd
  else do
    let s ← if fd.toNat < s.fd_table_max then .ok s else grow platform s fd.toNat memory
    .ok { s with fd_table := Function.update s.fd_table fd.toNat (some node) }

def fdevent_unregister (s : State Ptr Callback) (node : Ptr) (fde : Fdevent Callback) :
    Except Stop (State Ptr Callback) :=
  if fde.fd < 0 ∨ (s.fd_table_max : Int) ≤ fde.fd then .error .outOfRange
  else if s.fd_table fde.fd.toNat ≠ some node then .error .outOfSync
  else
    let s := { s with fd_table := Function.update s.fd_table fde.fd.toNat none }
    if fde.state &&& platform.FDE_DONT_CLOSE = 0#16 then .ok (s.emit (.close fde.fd)) else .ok s

def fdevent_connect (s : State Ptr Callback) (fd : Int) : State Ptr Callback :=
  if (s.select_n : Int) ≤ fd then { s with select_n := fd.toNat+1 } else s

/-- FD_SET or FD_CLR of a descriptor in the three sets. -/
def setFds (s : State Ptr Callback) (fd : Int) (read write error : Bool) : Except Stop (State Ptr Callback) :=
  if 0 ≤ fd ∧ fd < FD_SETSIZE then
    .ok { s with
      read_fds := Function.update s.read_fds fd.toNat read
      write_fds := Function.update s.write_fds fd.toNat write
      error_fds := Function.update s.error_fds fd.toNat error }
  else .error .undefined

/-- for(n = 0, i = 0; i < select_n; i++) if(fd_table[i] != 0) n = i; -/
def lastUsed (fd_table : Nat → Option Ptr) (select_n : Nat) : Nat :=
  (List.range select_n).foldl (fun n i => if (fd_table i).isSome then i else n) 0

def fdevent_disconnect (s : State Ptr Callback) (fd : Int) : Except Stop (State Ptr Callback) := do
  let s ← setFds s fd false false false
  if s.select_n ≤ s.fd_table_max then .ok { s with select_n := lastUsed s.fd_table s.select_n+1 }
  else .error .undefined

def fdevent_update (s : State Ptr Callback) (node : Ptr) (fde : Fdevent Callback) (events : Bits) :
    Except Stop (State Ptr Callback) := do
  let s ← setFds s fde.fd (events &&& platform.FDE_READ ≠ 0#16) (events &&& platform.FDE_WRITE ≠ 0#16)
    (events &&& platform.FDE_ERROR ≠ 0#16)
  .ok (s.store node { fde with state := (fde.state &&& FDE_STATEMASK) ||| events })

def fdevent_install (s : State Ptr Callback) (node : Ptr) (fd : Int) (func : Callback)
    (memory : Option (Nat → Option Ptr)) : Except Stop (State Ptr Callback) := do
  let fde : Fdevent Callback := { fd := fd, force_eof := false, state := FDE_ACTIVE, events := 0#16, func := func }
  let s := { s with links := s.links.clear node platform.null }.store node fde
  let s ← fdevent_register platform (s.emit (.nonblock fd)) node fd memory
  let s := fdevent_connect s fd
  .ok (s.store node { fde with state := fde.state ||| FDE_ACTIVE })

/-- The pointer that malloc gives, if any. -/
def fdevent_create (s : State Ptr Callback) (malloc : Option Ptr) (fd : Int) (func : Callback)
    (memory : Option (Nat → Option Ptr)) : Except Stop (State Ptr Callback) :=
  match malloc with
  | none => .ok s
  | some node => do
    let s ← fdevent_install platform s node fd func memory
    let fde ← s.load node
    .ok (s.store node { fde with state := fde.state ||| FDE_CREATED })

def fdevent_remove (s : State Ptr Callback) (node : Ptr) : Except Stop (State Ptr Callback) := do
  let fde ← s.load node
  let s ← if fde.pending then fdevent_plist_remove platform s node else .ok s
  let s ← if fde.active then fdevent_disconnect s fde.fd else .ok s
  let s ← if fde.active then fdevent_unregister platform s node fde else .ok s
  .ok (s.store node { fde with state := 0#16, events := 0#16 })

def fdevent_destroy (s : State Ptr Callback) (node : Option Ptr) : Except Stop (State Ptr Callback) :=
  match node with
  | none => .ok s
  | some node => do
    let fde ← s.load node
    if fde.created then fdevent_remove platform s node else .error .notCreated

def fdevent_set (s : State Ptr Callback) (node : Ptr) (events : Bits) : Except Stop (State Ptr Callback) := do
  let fde ← s.load node
  let events := events &&& FDE_EVENTMASK
  if fde.wanted = events then .ok s
  else do
    let s ← if fde.active then fdevent_update platform s node fde events else .ok s
    let fde := { fde with state := (fde.state &&& FDE_STATEMASK) ||| events }
    if fde.pending then do
      let fde := { fde with events := fde.events &&& ~~~events }
      if fde.events = 0#16 then do
        let s ← fdevent_plist_remove platform s node
        .ok (s.store node { fde with state := fde.state &&& ~~~FDE_PENDING })
      else .ok (s.store node fde)
    else .ok (s.store node fde)

def fdevent_add (s : State Ptr Callback) (node : Ptr) (events : Bits) : Except Stop (State Ptr Callback) := do
  let fde ← s.load node
  fdevent_set platform s node (fde.wanted ||| (events &&& FDE_EVENTMASK))

def fdevent_del (s : State Ptr Callback) (node : Ptr) (events : Bits) : Except Stop (State Ptr Callback) := do
  let fde ← s.load node
  fdevent_set platform s node (fde.wanted &&& ~~~(events &&& FDE_EVENTMASK))

/-- Whether the descriptor is in the table and fcntl fails for it. -/
def checkFails (s : State Ptr Callback) (bad : Nat → Bool) (i : Nat) : Bool := (s.fd_table i).isSome && bad i

/-- fdevent_fd_check on an empty set: the set and the number of bad descriptors. -/
def fdevent_fd_check (s : State Ptr Callback) (bad : Nat → Bool) : Except Stop ((Nat → Bool) × Nat) :=
  let found := (List.range s.select_n).filter (checkFails s bad)
  if s.select_n ≤ s.fd_table_max then .ok (fun i => i ∈ found,found.length) else .error .undefined

def bitCount (rfd wfd efd : Nat → Bool) (i : Nat) : Nat := (rfd i).toNat+(wfd i).toNat+(efd i).toNat

def eventBits (rfd wfd efd : Nat → Bool) (i : Nat) : Bits :=
  (if rfd i then platform.FDE_READ else 0#16) ||| (if wfd i then platform.FDE_WRITE else 0#16) |||
    (if efd i then platform.FDE_ERROR else 0#16)

/-- The events of one descriptor in fdevent_process. -/
def notice (s : State Ptr Callback) (i : Nat) (events : Bits) : Except Stop (State Ptr Callback) :=
  if s.fd_table_max ≤ i then .error .undefined
  else match s.fd_table i with
  | none => .error .missingFde
  | some node => do
    let fde ← s.load node
    let fde := { fde with events := fde.events ||| events }
    if fde.pending then .ok (s.store node fde)
    else fdevent_plist_enqueue platform (s.store node { fde with state := fde.state ||| FDE_PENDING }) node

/-- for(i = 0; (i < select_n) && (n > 0); i++), with so many descriptors left. -/
def collect (rfd wfd efd : Nat → Bool) : Nat → Nat → Int → State Ptr Callback → Except Stop (State Ptr Callback)
  | 0, _, _, s => .ok s
  | left+1, i, n, s =>
    if 0 < n then do
      let events := eventBits platform rfd wfd efd i
      let s ← if events = 0#16 then .ok s else notice platform s i events
      collect rfd wfd efd left (i+1) (n-bitCount rfd wfd efd i) s
    else .ok s

/-- fdevent_process, from what select returns and from what fcntl says of each descriptor; the
sets hold FD_SETSIZE descriptors. -/
def fdevent_process (s : State Ptr Callback) (select : Select) (bad : Nat → Bool) :
    Except Stop (State Ptr Callback) :=
  let faked := do
    let (rfd,n) ← fdevent_fd_check s bad
    collect platform rfd (fun _ => false) (fun _ => false) s.select_n 0 n s
  if FD_SETSIZE < s.select_n then .error .undefined
  else match select with
  | .interrupted => .ok s
  | .failed => .ok s
  | .badFd => faked
  | .ready read write error =>
    let rfd := fun i => s.read_fds i && read i
    let wfd := fun i => s.write_fds i && write i
    let efd := fun i => s.error_fds i && error i
    let n := ((List.range s.select_n).map (bitCount rfd wfd efd)).sum
    if n = 0 then faked else collect platform rfd wfd efd s.select_n 0 n s

def fdevent_call_fdfunc (s : State Ptr Callback) (node : Ptr) : Except Stop (State Ptr Callback) := do
  let fde ← s.load node
  let s := s.store node { fde with events := 0#16 }
  if fde.pending then
    .ok ((s.store node { fde with state := fde.state &&& ~~~FDE_PENDING, events := 0#16 }).emit
      (.call fde.func fde.fd fde.events))
  else .ok s

/-- One turn of the loops of fdevent_loop: the next function is called, or there is none and
the descriptors are polled. -/
def turn (s : State Ptr Callback) (select : Select) (bad : Nat → Bool) : Except Stop (State Ptr Callback) := do
  match ← fdevent_plist_dequeue platform s with
  | (s,some node) => fdevent_call_fdfunc s node
  | (s,none) => fdevent_process platform s select bad

/-- What follows fdevent_add in fdevent_subproc_event_func: the descriptor that readx gives,
if it does, and whether FIONREAD finds something to read there. -/
def closeSubproc (s : State Ptr Callback) (answer : Option (Int × Bool)) : Except Stop (State Ptr Callback) :=
  match answer with
  | none => .error .unreadable
  | some (subproc_fd,rcount) =>
    if subproc_fd < 0 ∨ (s.fd_table_max : Int) ≤ subproc_fd then .ok s
    else match s.fd_table subproc_fd.toNat with
      | none => .ok s
      | some node => do
        let fde ← s.load node
        if fde.fd ≠ subproc_fd then .ok s
        else
          let fde := { fde with force_eof := true }
          if rcount then .ok (s.store node fde)
          else
            let fde := { fde with events := fde.events ||| platform.FDE_READ }
            if fde.pending then .ok (s.store node fde)
            else fdevent_call_fdfunc (s.store node { fde with state := fde.state ||| FDE_PENDING }) node

def fdevent_subproc_event_func (s : State Ptr Callback) (fd : Int) (events : Bits) (answer : Option (Int × Bool)) :
    Except Stop (State Ptr Callback) :=
  if fd < 0 ∨ (s.fd_table_max : Int) ≤ fd then .error .outOfRange
  else match s.fd_table fd.toNat with
    | none => .error .undefined
    | some node => do
      let s ← fdevent_add platform s node platform.FDE_READ
      if events &&& platform.FDE_READ = 0#16 then .ok s else closeSubproc platform s answer

/-- What socketpair and malloc give, if they do; the handler goes to the second descriptor. -/
def fdevent_subproc_setup (s : State Ptr Callback) (pair : Option (Int × Int)) (malloc : Option Ptr)
    (handler : Callback) (memory : Option (Nat → Option Ptr)) : Except Stop (State Ptr Callback) :=
  match pair, malloc with
  | none, _ => .error .noSocketpair
  | some _, none => .error .noHandler
  | some (_,fd), some node => do
    let s ← fdevent_create platform s node fd handler memory
    fdevent_add platform s node platform.FDE_READ

/-- What the program does: the calls of the functions above, turns of the loop, and storage
of an fdevent that its owner takes back. -/
inductive Action (Ptr Callback : Type) where
  | install (node : Ptr) (fd : Int) (func : Callback) (memory : Option (Nat → Option Ptr))
  | create (malloc : Option Ptr) (fd : Int) (func : Callback) (memory : Option (Nat → Option Ptr))
  | remove (node : Ptr)
  | destroy (node : Option Ptr)
  | set (node : Ptr) (events : Bits)
  | add (node : Ptr) (events : Bits)
  | del (node : Ptr) (events : Bits)
  | release (node : Ptr)
  | subproc (fd : Int) (events : Bits) (answer : Option (Int × Bool))
  | turn (select : Select) (bad : Nat → Bool)

def step (s : State Ptr Callback) : Action Ptr Callback → Except Stop (State Ptr Callback)
  | .install node fd func memory => fdevent_install platform s node fd func memory
  | .create malloc fd func memory => fdevent_create platform s malloc fd func memory
  | .remove node => fdevent_remove platform s node
  | .destroy node => fdevent_destroy platform s node
  | .set node events => fdevent_set platform s node events
  | .add node events => fdevent_add platform s node events
  | .del node events => fdevent_del platform s node events
  | .release node => .ok { s with fde := Function.update s.fde node none }
  | .subproc fd events answer => fdevent_subproc_event_func platform s fd events answer
  | .turn select bad => turn platform s select bad

def run (s : State Ptr Callback) (actions : List (Action Ptr Callback)) : Except Stop (State Ptr Callback) :=
  actions.foldlM (step platform) s

/-- Where it succeeds, fdevent_subproc_setup is two of the calls. -/
theorem fdevent_subproc_setup_run (s : State Ptr Callback) (first fd : Int) (node : Ptr) (handler : Callback)
    (memory : Option (Nat → Option Ptr)) :
    fdevent_subproc_setup platform s (some (first,fd)) (some node) handler memory =
      run platform s [.create (some node) fd handler memory,.add node platform.FDE_READ] := by
  simp only [fdevent_subproc_setup,run,List.foldlM_cons,List.foldlM_nil,step,bind_pure]

/-- Before the first call: list_pending is alone and nothing is allocated. -/
def initial (Callback : Type) : State Ptr Callback where
  links := ⟨fun _ => platform.list,fun _ => platform.list⟩
  fde _ := none
  fd_table _ := none
  fd_table_max := 0
  read_fds _ := false
  write_fds _ := false
  error_fds _ := false
  select_n := 0
  log := []

end Libsme.Input.EventLoop
