import Libsme.Buffer.BufferStack
import Libsme.Library.Transition

/-! cyclAdd and cyclGet interrupted by each other: `IRQ_DIS` and `IRQ_EN` are empty, so
that a call of one may run, or several may, between two steps of a call of the other.
Here the steps of one adder and one getter come in any order at all. -/
namespace Libsme.Buffer
open Libsme.Ring (next slots contents)

/-- How far `cyclGet` has come: it has found a byte, has reset the start index before the
load of the last slot, or has loaded the byte before the index moves on. -/
inductive Getting where
  | idle
  | tested
  | released
  | loaded (val : UInt8)

inductive Adding where
  | idle
  | tested (ch : UInt8)
  | stored (ch : UInt8)

/-- The buffer and its callers; `accepted` and `returned` are the bytes of the calls that
are complete, `unread` the slots of the bytes that no get has loaded yet. -/
structure Machine where
  cycl : Cycl
  getting : Getting
  adding : Adding
  accepted : List UInt8
  returned : List UInt8
  unread : List Nat

inductive Action where
  | add (ch : UInt8)
  | store
  | extend
  | get
  | take
  | finish

def Machine.step (machine : Machine) : Action → Option Machine
  | .add ch =>
    match machine.adding with
    | .idle => if cyclIsFull machine.cycl then some machine else some {machine with adding := .tested ch}
    | _ => none
  | .store =>
    match machine.adding with
    | .tested ch => some {machine with
        cycl := machine.cycl.store machine.cycl.cyclEnd ch
        adding := .stored ch}
    | _ => none
  | .extend =>
    match machine.adding with
    | .stored ch => some {machine with
        cycl := {machine.cycl with
          cyclEnd := if machine.cycl.cyclEnd.toNat = cyclMax-1 then 0 else machine.cycl.cyclEnd+1}
        adding := .idle
        accepted := machine.accepted ++ [ch]
        unread := machine.unread ++ [machine.cycl.cyclEnd.toNat]}
    | _ => none
  | .get =>
    match machine.getting with
    | .idle => if cyclIsEmpty machine.cycl then some machine else some {machine with getting := .tested}
    | _ => none
  | .take =>
    match machine.getting with
    | .tested =>
      if machine.cycl.cyclStart.toNat = cyclMax-1 then
        some {machine with cycl := {machine.cycl with cyclStart := 0}, getting := .released}
      else some {machine with
        getting := .loaded (machine.cycl.load machine.cycl.cyclStart)
        unread := machine.unread.erase machine.cycl.cyclStart.toNat}
    | _ => none
  | .finish =>
    match machine.getting with
    | .released => some {machine with
        getting := .idle
        returned := machine.returned ++ [machine.cycl.load 127]
        unread := machine.unread.erase 127}
    | .loaded val => some {machine with
        cycl := {machine.cycl with cyclStart := machine.cycl.cyclStart+1}
        getting := .idle
        returned := machine.returned ++ [val]}
    | _ => none

def Machine.start (cycl : Cycl) : Machine := ⟨cycl.cleared,.idle,.idle,[],[],[]⟩

/-- The steps of a call that nothing interrupts: of a full buffer only the test is made. -/
def addSteps (cycl : Cycl) (ch : UInt8) : List Action :=
  if cyclIsFull cycl then [.add ch] else [.add ch,.store,.extend]

def getSteps (cycl : Cycl) : List Action := if cyclIsEmpty cycl then [.get] else [.get,.take,.finish]

/-- Without interruption the steps are a call of cyclAdd, or of cyclGet. -/
structure Machine.Calls (machine : Machine) : Prop where
  add : machine.adding = .idle → ∀ ch, ((addSteps machine.cycl ch).foldlM Machine.step machine).map Machine.cycl =
    some (cyclAdd machine.cycl ch)
  get : machine.getting = .idle → ((getSteps machine.cycl).foldlM Machine.step machine).map Machine.cycl =
    some (cyclGet machine.cycl).2
  returned : machine.getting = .idle → cyclIsEmpty machine.cycl = false →
    ((getSteps machine.cycl).foldlM Machine.step machine).map Machine.returned =
      some (machine.returned ++ [(cyclGet machine.cycl).1])

theorem add_complete (cycl : Cycl) (ch : UInt8) (getting : Getting) (accepted returned : List UInt8)
    (unread : List Nat) : ((addSteps cycl ch).foldlM Machine.step ⟨cycl,getting,.idle,accepted,returned,unread⟩).map Machine.cycl =
      some (cyclAdd cycl ch) := by
  rw [cyclAdd,addSteps]
  by_cases full : cyclIsFull cycl = true
  · simp [Machine.step,full]
  rw [if_neg full,if_neg full]
  by_cases last : cycl.cyclEnd.toNat = cyclMax-1
  · simp [Machine.step,full,cyclSet,Cycl.store,last]
  · simp [Machine.step,full,cyclSet,Cycl.store,last]

theorem get_complete (cycl : Cycl) (adding : Adding) (accepted returned : List UInt8) (unread : List Nat) :
    ((getSteps cycl).foldlM Machine.step ⟨cycl,.idle,adding,accepted,returned,unread⟩).map
        (fun machine => (machine.returned,machine.cycl)) =
      some (if cyclIsEmpty cycl then returned else returned ++ [(cyclGet cycl).1],(cyclGet cycl).2) := by
  rw [cyclGet,getSteps]
  by_cases empty : cyclIsEmpty cycl = true
  · simp [Machine.step,empty]
  rw [if_neg empty,if_neg empty,if_neg empty]
  by_cases last : cycl.cyclStart.toNat = cyclMax-1
  · simp [Machine.step,empty,cyclTake,last,Cycl.load]
  · simp [Machine.step,empty,cyclTake,last]

theorem Machine.calls (machine : Machine) : machine.Calls := by
  obtain ⟨cycl,getting,adding,accepted,returned,unread⟩ := machine
  refine ⟨?_,?_,?_⟩
  · rintro rfl ch
    exact add_complete cycl ch getting accepted returned unread
  · rintro rfl
    have whole := congrArg (Option.map Prod.snd) (get_complete cycl adding accepted returned unread)
    rwa [Option.map_map] at whole
  · rintro rfl filled
    have whole := congrArg (Option.map Prod.fst) (get_complete cycl adding accepted returned unread)
    rwa [Option.map_map,filled] at whole

/-- What interruption must not break: the bytes come back in order, those that have not
come back are stored, and an add that is past its test stores to no unread slot. -/
structure Machine.Safe (machine : Machine) : Prop where
  ordered : machine.returned <+: machine.accepted
  complete : machine.getting = .idle → machine.accepted = machine.returned ++ machine.cycl.stored
  kept : ∀ ch, machine.adding = .tested ch → machine.cycl.cyclEnd.toNat ∉ machine.unread

/-- The oldest slot whose byte the get that is under way has not taken. -/
def Getting.front (cycl : Cycl) : Getting → Nat
  | .idle | .tested | .released => cycl.cyclStart.toNat
  | .loaded _ => Ring.next cyclMax cycl.cyclStart.toNat

/-- The byte that the get under way returns, once it has taken one. -/
def Getting.pending (cycl : Cycl) : Getting → List UInt8
  | .idle | .tested => []
  | .released => [cycl.load 127]
  | .loaded val => [val]

def Getting.held : Getting → List Nat
  | .released => [127]
  | _ => []

def Getting.Sound (cycl : Cycl) : Getting → Prop
  | .idle => True
  | .tested => cycl.cyclStart.toNat ≠ cycl.cyclEnd.toNat
  | .released => cycl.cyclStart.toNat = 0
  | .loaded _ => cycl.cyclStart.toNat ≠ cycl.cyclEnd.toNat ∧ cycl.cyclStart.toNat ≠ cyclMax-1

def Adding.Sound (cycl : Cycl) : Adding → Prop
  | .idle => True
  | .tested _ => cycl.cyclStart.toNat ≠ next cyclMax cycl.cyclEnd.toNat
  | .stored ch => cycl.cyclStart.toNat ≠ next cyclMax cycl.cyclEnd.toNat ∧ cycl.load cycl.cyclEnd = ch

structure Machine.Consistent (machine : Machine) : Prop where
  inside : machine.cycl.Inside
  getting : machine.getting.Sound machine.cycl
  adding : machine.adding.Sound machine.cycl
  bytes : machine.accepted = machine.returned ++ machine.getting.pending machine.cycl ++
    contents machine.cycl.cyclBuf (machine.getting.front machine.cycl) machine.cycl.cyclEnd.toNat
  unread : machine.unread = machine.getting.held ++
    slots cyclMax (machine.getting.front machine.cycl) machine.cycl.cyclEnd.toNat

theorem Getting.front_lt {cycl : Cycl} (inside : cycl.Inside) (getting : Getting) :
    getting.front cycl < cyclMax := by
  cases getting with
  | loaded val => exact Ring.next_lt inside.start
  | _ => exact inside.start

theorem Getting.front_ne_next {cycl : Cycl} {getting : Getting} (sound : getting.Sound cycl)
    (room : cycl.cyclStart.toNat ≠ next cyclMax cycl.cyclEnd.toNat) :
    getting.front cycl ≠ next cyclMax cycl.cyclEnd.toNat := by
  cases getting with
  | loaded val => exact fun same => sound.1 (Ring.next_inj same)
  | _ => exact room

theorem Getting.end_not_mem_held {cycl : Cycl} {getting : Getting} (sound : getting.Sound cycl)
    (room : cycl.cyclStart.toNat ≠ next cyclMax cycl.cyclEnd.toNat) :
    cycl.cyclEnd.toNat ∉ getting.held := by
  cases getting with
  | released =>
    intro member
    have last := List.mem_singleton.mp member
    rw [last] at room
    exact room sound
  | _ => exact List.not_mem_nil

theorem Machine.Consistent.safe {machine : Machine} (consistent : machine.Consistent) : machine.Safe := by
  refine ⟨?_,?_,?_⟩
  · rw [consistent.bytes,List.append_assoc]
    exact List.prefix_append _ _
  · intro idle
    rw [consistent.bytes,idle]
    simp [Getting.pending,Getting.front,Cycl.stored]
  · intro ch tested
    have room := consistent.adding
    rw [tested] at room
    rw [consistent.unread,List.mem_append,not_or]
    exact ⟨Getting.end_not_mem_held consistent.getting room,Ring.finish_not_mem_slots consistent.inside.finish⟩

theorem Machine.Consistent.add {machine next : Machine} {ch : UInt8} (consistent : machine.Consistent)
    (taken : machine.step (.add ch) = some next) : next.Consistent := by
  obtain ⟨cycl,getting,adding,accepted,returned,unread⟩ := machine
  cases adding with
  | idle =>
    dsimp only [Machine.step] at taken
    by_cases full : cyclIsFull cycl = true
    · rw [if_pos full] at taken
      exact Option.some.inj taken ▸ consistent
    · rw [if_neg full] at taken
      obtain rfl := Option.some.inj taken
      refine {consistent with adding := ?_}
      intro same
      apply full
      rw [cyclIsFull,decide_eq_true_iff,cyclIncrease_eq,same]
  | tested _ => cases taken
  | stored _ => cases taken

theorem Machine.Consistent.store {machine next : Machine} (consistent : machine.Consistent)
    (taken : machine.step .store = some next) : next.Consistent := by
  obtain ⟨cycl,getting,adding,accepted,returned,unread⟩ := machine
  cases adding with
  | tested ch =>
    obtain rfl := Option.some.inj taken
    have inside := consistent.inside
    have room := consistent.adding
    have free := Getting.end_not_mem_held consistent.getting room
    have kept : contents (cycl.store cycl.cyclEnd ch).cyclBuf (getting.front cycl) cycl.cyclEnd.toNat =
        contents cycl.cyclBuf (getting.front cycl) cycl.cyclEnd.toNat :=
      Ring.contents_set cycl.size (Ring.finish_not_mem_slots inside.finish) ch
    have pending : getting.pending (cycl.store cycl.cyclEnd ch) = getting.pending cycl := by
      cases getting with
      | released =>
        have differs : cycl.cyclEnd.toNat ≠ 127 := fun same => free (List.mem_singleton.mpr same)
        simp [Getting.pending,Cycl.load,Cycl.store,List.getElem?_set_ne differs]
      | _ => rfl
    have loaded : (cycl.store cycl.cyclEnd ch).load cycl.cyclEnd = ch := by
      rw [Cycl.load,Cycl.store,List.getD_eq_getElem?_getD,
        List.getElem?_set_self (cycl.size ▸ inside.finish),Option.getD_some]
    refine ⟨⟨inside.start,inside.finish⟩,consistent.getting,⟨room,loaded⟩,?_,consistent.unread⟩
    have bytes := consistent.bytes
    dsimp only at bytes ⊢
    rw [bytes,pending,← kept]
    rfl
  | idle => cases taken
  | stored _ => cases taken

theorem advance_toNat {index : UInt8} (bound : index.toNat < cyclMax) :
    (if index.toNat = cyclMax-1 then 0 else index+1 : UInt8).toNat = next cyclMax index.toNat := by
  by_cases last : index.toNat = cyclMax-1
  · rw [if_pos last,last]
    rfl
  · rw [if_neg last]
    exact succ_toNat bound last

theorem Getting.Sound.extended {cycl : Cycl} {getting : Getting} (sound : getting.Sound cycl)
    (room : cycl.cyclStart.toNat ≠ next cyclMax cycl.cyclEnd.toNat) {finish : UInt8}
    (moved : finish.toNat = next cyclMax cycl.cyclEnd.toNat) :
    getting.Sound {cycl with cyclEnd := finish} := by
  rw [← moved] at room
  cases getting with
  | idle => trivial
  | tested => exact room
  | released => exact sound
  | loaded val => exact ⟨room,sound.2⟩

theorem Machine.Consistent.extend {machine next : Machine} (consistent : machine.Consistent)
    (taken : machine.step .extend = some next) : next.Consistent := by
  obtain ⟨cycl,getting,adding,accepted,returned,unread⟩ := machine
  cases adding with
  | stored ch =>
    obtain rfl := Option.some.inj taken
    obtain ⟨start,finish⟩ := consistent.inside
    obtain ⟨room,stored⟩ := consistent.adding
    have first := Getting.front_lt consistent.inside getting
    have apart := Getting.front_ne_next consistent.getting room
    have moved := advance_toNat finish
    refine ⟨⟨start,?_⟩,?_,trivial,?_,?_⟩
    · dsimp only
      rw [moved]
      exact Ring.next_lt finish
    · exact consistent.getting.extended room moved
    · have bytes := consistent.bytes
      dsimp only at bytes ⊢
      rw [bytes,moved,← stored,List.append_assoc _ (contents _ _ _)]
      congr 1
      exact (Ring.contents_next_finish cycl.size first finish apart).symm
    · have unread := consistent.unread
      dsimp only at unread ⊢
      rw [unread,moved,List.append_assoc]
      congr 1
      exact (Ring.slots_next_finish first finish apart).symm
  | idle => cases taken
  | tested _ => cases taken

theorem Machine.Consistent.get {machine next : Machine} (consistent : machine.Consistent)
    (taken : machine.step .get = some next) : next.Consistent := by
  obtain ⟨cycl,getting,adding,accepted,returned,unread⟩ := machine
  cases getting with
  | idle =>
    dsimp only [Machine.step] at taken
    by_cases empty : cyclIsEmpty cycl = true
    · rw [if_pos empty] at taken
      exact Option.some.inj taken ▸ consistent
    · rw [if_neg empty] at taken
      obtain rfl := Option.some.inj taken
      refine {consistent with getting := ?_}
      intro same
      apply empty
      rw [cyclIsEmpty,decide_eq_true_iff]
      exact UInt8.toNat_inj.mp same
  | _ => cases taken

theorem Adding.Sound.released {cycl : Cycl} {adding : Adding} (sound : adding.Sound cycl)
    (filled : cycl.cyclStart.toNat ≠ cycl.cyclEnd.toNat) {start : UInt8}
    (moved : start.toNat = next cyclMax cycl.cyclStart.toNat) :
    adding.Sound {cycl with cyclStart := start} := by
  have room : start.toNat ≠ next cyclMax cycl.cyclEnd.toNat := by
    rw [moved]
    exact fun same => filled (Ring.next_inj same)
  cases adding with
  | idle => trivial
  | tested ch => exact room
  | stored ch => exact ⟨room,sound.2⟩

theorem Machine.Consistent.take {machine next : Machine} (consistent : machine.Consistent)
    (taken : machine.step .take = some next) : next.Consistent := by
  obtain ⟨cycl,getting,adding,accepted,returned,unread⟩ := machine
  cases getting with
  | tested =>
    obtain ⟨start,finish⟩ := consistent.inside
    have filled : cycl.cyclStart.toNat ≠ cycl.cyclEnd.toNat := consistent.getting
    have first := Ring.contents_get cycl.size start finish filled
    have oldest := Ring.slots_next_start start finish filled
    have bytes : accepted = returned ++ [] ++
      contents cycl.cyclBuf cycl.cyclStart.toNat cycl.cyclEnd.toNat := consistent.bytes
    have unread : unread = [] ++ slots cyclMax cycl.cyclStart.toNat cycl.cyclEnd.toNat := consistent.unread
    rw [first,List.append_assoc,List.nil_append] at bytes
    rw [oldest,List.nil_append] at unread
    dsimp only [Machine.step] at taken
    by_cases last : cycl.cyclStart.toNat = cyclMax-1
    · rw [if_pos last] at taken
      obtain rfl := Option.some.inj taken
      have wraps : (0 : UInt8).toNat = Ring.next cyclMax cycl.cyclStart.toNat := by rw [last]; rfl
      rw [← wraps,last] at bytes unread
      refine ⟨⟨?_,finish⟩,rfl,consistent.adding.released filled wraps,?_,unread⟩
      · exact wraps ▸ Ring.next_lt start
      · rw [List.append_assoc]
        exact bytes
    · rw [if_neg last] at taken
      obtain rfl := Option.some.inj taken
      refine ⟨⟨start,finish⟩,⟨filled,last⟩,consistent.adding,?_,?_⟩
      · rw [List.append_assoc]
        exact bytes
      · dsimp only
        rw [unread,List.erase_cons_head]
        rfl
  | _ => cases taken

theorem Machine.Consistent.finish {machine next : Machine} (consistent : machine.Consistent)
    (taken : machine.step .finish = some next) : next.Consistent := by
  obtain ⟨cycl,getting,adding,accepted,returned,unread⟩ := machine
  cases getting with
  | released =>
    obtain rfl := Option.some.inj taken
    refine ⟨consistent.inside,trivial,consistent.adding,?_,?_⟩
    · exact (List.append_nil (returned ++ _)).symm ▸ consistent.bytes
    · have unread := consistent.unread
      dsimp only at unread ⊢
      rw [unread]
      exact List.erase_cons_head 127 _
  | loaded val =>
    obtain rfl := Option.some.inj taken
    obtain ⟨start,finish⟩ := consistent.inside
    obtain ⟨filled,inner⟩ := consistent.getting
    have moved := succ_toNat start inner
    have bytes : accepted = returned ++ [val] ++
      contents cycl.cyclBuf (Ring.next cyclMax cycl.cyclStart.toNat) cycl.cyclEnd.toNat := consistent.bytes
    have unread : unread = [] ++
      slots cyclMax (Ring.next cyclMax cycl.cyclStart.toNat) cycl.cyclEnd.toNat := consistent.unread
    rw [← moved] at bytes unread
    refine ⟨⟨?_,finish⟩,trivial,consistent.adding.released filled moved,?_,unread⟩
    · exact moved ▸ Ring.next_lt start
    · exact (List.append_nil (returned ++ [val])).symm ▸ bytes
  | _ => cases taken

theorem Machine.Consistent.step {machine next : Machine} (action : Action) (consistent : machine.Consistent)
    (taken : machine.step action = some next) : next.Consistent := by
  cases action with
  | add ch => exact consistent.add taken
  | store => exact consistent.store taken
  | extend => exact consistent.extend taken
  | get => exact consistent.get taken
  | take => exact consistent.take taken
  | finish => exact consistent.finish taken

theorem Machine.start_consistent (cycl : Cycl) : (Machine.start cycl).Consistent :=
  have inside : (0 : UInt8).toNat < cyclMax := Nat.zero_lt_succ _
  ⟨⟨inside,inside⟩,trivial,trivial,(Ring.contents_empty _ _).symm,(Ring.slots_empty _ _).symm⟩

/-- However the steps of adds and gets fall, the accepted bytes come back once each and in
order, and no add stores over a byte that is still to be read. -/
theorem interrupted_safe (cycl : Cycl) (actions : List Action) :
    Transition.Throughout Machine.step (fun machine => machine.Safe ∧ machine.Calls) (Machine.start cycl) actions :=
  Transition.throughout_of_invariant Machine.Consistent (fun machine consistent => ⟨consistent.safe,machine.calls⟩)
    (fun _ action _ consistent taken => consistent.step action taken) _ (Machine.start_consistent cycl) actions

end Libsme.Buffer
