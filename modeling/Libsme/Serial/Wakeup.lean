import Libsme.Serial.ReadBuffer

/-! How the reader of serial_run.cpp wakes printf_thread_handle. A section under `rwlock`
or `mut` is one step, and a signal that finds no waiter is lost. -/
namespace Libsme.Serial

/-- Where printf_thread_handle is: before it waits, in pthread_cond_wait, signalled and not
yet at the drain, or busy with what it has drained. -/
inductive Consumer where
  | top
  | waiting
  | woken
  | processing

def Consumer.signal : Consumer → Consumer
  | .waiting => .woken
  | consumer => consumer

structure Console where
  buffer : ReadBuffer
  consumer : Consumer

namespace Console

inductive Section where
  | produce (size : Int)
  | consume
  | spurious

def produce (console : Console) (size : Int) : Console :=
  {buffer := ReadBuffer.settle (console.buffer.read size).log (console.buffer.read size).value,
    consumer := if size ≠ 0 then console.consumer.signal else console.consumer}

/-- The next section of the thread; one that waits has none. -/
def consume (console : Console) : Option Console :=
  match console.consumer with
  | .top => some {console with consumer := .waiting}
  | .waiting => none
  | .woken =>
    let (size,buffer) := console.buffer.drain.value
    some ⟨ReadBuffer.settle console.buffer.drain.log buffer,if size ≤ 0 then .top else .processing⟩
  | .processing => some {console with consumer := .top}

/-- pthread_cond_wait may return without a signal. -/
def step (console : Console) (turn : Section) : Option Console :=
  if console.buffer.overrun then none
  else match turn with
    | .produce size => if -1 ≤ size ∧ size ≤ readSize then some (console.produce size) else none
    | .consume => console.consume
    | .spurious =>
      match console.consumer with
      | .waiting => some {console with consumer := .woken}
      | _ => none

def start : Console := ⟨ReadBuffer.empty,.top⟩

/-- A thread that waits has left no byte, and no store has left its array. -/
structure NoneLost (console : Console) : Prop where
  intact : console.buffer.overrun = false
  drained : console.consumer = .waiting → console.buffer.readEnd = console.buffer.readStart

/-- What is read has room in `line_pr` and `read_buffer`; with data, the section comes while
the thread waits or is on its way to the drain, which can take all of it. -/
def Heard (console : Console) : Section → Prop
  | .produce size => 0 ≤ size ∧ size ≤ lineBytes ∧ console.buffer.readEnd+size ≤ readBytes ∧
      (size = 0 ∨ (console.consumer = .waiting ∨ console.consumer = .woken) ∧
        console.buffer.readEnd+size-console.buffer.readStart ≤ readSize)
  | .consume => True
  | .spurious => True

structure Sound (console : Console) : Prop extends console.buffer.Ordered where
  fits : console.buffer.readEnd-console.buffer.readStart ≤ readSize
  drained : console.consumer = .woken ∨ console.buffer.readEnd = console.buffer.readStart

theorem Sound.noneLost {console : Console} (sound : console.Sound) : console.NoneLost := by
  refine ⟨sound.intact,?_⟩
  intro waiting
  rcases sound.drained with woken | drained
  · rw [waiting] at woken
    exact nomatch woken
  · exact drained

theorem step_eq {console : Console} (intact : console.buffer.overrun = false) (turn : Section) :
    console.step turn = match turn with
      | .produce size => if -1 ≤ size ∧ size ≤ readSize then some (console.produce size) else none
      | .consume => console.consume
      | .spurious =>
        match console.consumer with
        | .waiting => some {console with consumer := .woken}
        | _ => none := by
  rw [step.eq_def,if_neg (by simp [intact])]

theorem step_produce {console next : Console} {size : Int} (intact : console.buffer.overrun = false)
    (taken : console.step (.produce size) = some next) :
    -1 ≤ size ∧ size ≤ readSize ∧ next = console.produce size := by
  rw [step_eq intact] at taken
  dsimp only at taken
  split at taken
  · rename_i possible
    exact ⟨possible.1,possible.2,(Option.some.inj taken).symm⟩
  · exact nomatch taken

@[simp] theorem produce_readStart (console : Console) (size : Int) :
    (console.produce size).buffer.readStart = console.buffer.readStart := ReadBuffer.read_readStart _ _
@[simp] theorem produce_readEnd (console : Console) (size : Int) :
    (console.produce size).buffer.readEnd = console.buffer.readEnd+size := ReadBuffer.read_readEnd _ _

theorem produce_consumer {console : Console} {size : Int} (data : size ≠ 0) :
    (console.produce size).consumer = console.consumer.signal := if_pos data

theorem Sound.produce {console : Console} (sound : console.Sound) {size : Int}
    (heard : console.Heard (.produce size)) : (console.produce size).Sound := by
  obtain ⟨natural,short,inside,listening⟩ := heard
  obtain ⟨⟨_,start,order⟩,fits,drained⟩ := sound
  have most : size ≤ readSize := by
    unfold readSize lineBytes at *
    omega
  refine ⟨⟨?_,?_,?_⟩,?_,?_⟩
  · exact (ReadBuffer.read_intact (by omega) most (by omega)).mpr ⟨inside,natural,short⟩
  · rw [produce_readStart]
    exact start
  · rw [produce_readStart,produce_readEnd]
    omega
  · rw [produce_readStart,produce_readEnd]
    rcases listening with rfl | ⟨-,few⟩
    · omega
    · exact few
  · rw [produce_readStart,produce_readEnd]
    by_cases nothing : size = 0
    · subst nothing
      rw [Int.add_zero]
      exact drained
    · rw [produce_consumer nothing]
      rcases (listening.resolve_left nothing).1 with waiting | woken
      · exact Or.inl (by rw [waiting]; rfl)
      · exact Or.inl (by rw [woken]; rfl)

theorem Sound.consume {console next : Console} (sound : console.Sound)
    (taken : console.consume = some next) : next.Sound := by
  obtain ⟨buffer,consumer⟩ := console
  obtain ⟨⟨intact,start,order⟩,fits,drained⟩ := sound
  cases consumer with
  | waiting => exact nomatch taken
  | woken =>
    obtain rfl := Option.some.inj taken
    obtain ⟨empty,finish⟩ := ReadBuffer.drain_next order
    refine ⟨⟨ReadBuffer.drain_intact.mpr fits,?_,Int.le_of_eq empty⟩,?_,Or.inr empty.symm⟩
    · change 0 ≤ buffer.drain.value.2.readStart
      rw [empty]
      rcases finish with reset | kept
      · exact Int.le_of_eq reset.symm
      · exact Int.le_trans start (Int.le_trans order (Int.le_of_eq kept.symm))
    · change buffer.drain.value.2.readEnd-buffer.drain.value.2.readStart ≤ readSize
      rw [empty,Int.sub_self]
      unfold readSize
      omega
  | top | processing =>
    obtain rfl := Option.some.inj taken
    rcases drained with woken | drained
    · exact nomatch woken
    · exact ⟨⟨intact,start,order⟩,fits,Or.inr drained⟩

theorem Sound.step {console next : Console} (sound : console.Sound) (turn : Section)
    (taken : console.step turn = some next) (heard : console.Heard turn) : next.Sound := by
  cases turn with
  | produce size =>
    obtain ⟨-,-,rfl⟩ := step_produce sound.intact taken
    exact sound.produce heard
  | consume =>
    rw [step_eq sound.intact] at taken
    exact sound.consume taken
  | spurious =>
    rw [step_eq sound.intact] at taken
    obtain ⟨buffer,consumer⟩ := console
    cases consumer with
    | waiting =>
      obtain rfl := Option.some.inj taken
      exact ⟨sound.toOrdered,sound.fits,Or.inl rfl⟩
    | _ => exact nomatch taken

def Kept (start : Console) (turns : List Section) : Prop := Transition.Throughout step NoneLost start turns

def Probe (probe : List Section) : Prop := ∃ count, probe = List.replicate count .consume

theorem probe_heard (console : Console) {probe : List Section} (isProbe : Probe probe) :
    Transition.Meets step Heard console probe := by
  obtain ⟨count,rfl⟩ := isProbe
  induction count generalizing console with
  | zero => trivial
  | succ count ih =>
    intro next taken
    exact ⟨trivial,ih next⟩

theorem Kept.consume {console next : Console} {rest : List Section} (kept : Kept console (.consume::rest))
    (goes : console.consume = some next) : Kept next rest := by
  apply kept.later
  rw [step_eq kept.start.intact]
  exact goes

/-- A signal that nobody hears leaves its bytes for the wait to come. -/
theorem unheard {console : Console} (busy : console.consumer = .top ∨ console.consumer = .processing)
    (kept : Kept console [.consume,.consume]) : console.buffer.readEnd = console.buffer.readStart := by
  obtain ⟨buffer,consumer⟩ := console
  rcases busy with top | processing
  · obtain rfl : consumer = .top := top
    have waits := kept.consume rfl
    exact waits.start.drained rfl
  · obtain rfl : consumer = .processing := processing
    have waits := (kept.consume rfl).consume rfl
    exact waits.start.drained rfl

theorem heard_fits {console : Console} (woken : console.consumer = .woken)
    (kept : Kept console [.consume,.consume]) : console.buffer.readEnd-console.buffer.readStart ≤ readSize := by
  obtain ⟨buffer,consumer⟩ := console
  obtain rfl : consumer = .woken := woken
  have drained := kept.consume rfl
  exact ReadBuffer.drain_intact.mp drained.start.intact

theorem Sound.broken {console next : Console} (sound : console.Sound) {turn : Section}
    (taken : console.step turn = some next) (unmet : ¬console.Heard turn) :
    ∃ probe, Probe probe ∧ ¬Kept console (turn::probe) := by
  cases turn with
  | consume => exact absurd trivial unmet
  | spurious => exact absurd trivial unmet
  | produce size =>
    refine ⟨[.consume,.consume],⟨2,rfl⟩,?_⟩
    intro kept
    have rest := kept.later taken
    obtain ⟨least,most,rfl⟩ := step_produce sound.intact taken
    obtain ⟨inside,natural,short⟩ :=
      (ReadBuffer.read_intact least most (Int.le_trans sound.start sound.order)).mp rest.start.intact
    refine unmet ⟨natural,short,inside,?_⟩
    by_cases nothing : size = 0
    · exact Or.inl nothing
    · have signalled := @produce_consumer console size nothing
      have few (woken : console.consumer.signal = .woken) :
          console.buffer.readEnd+size-console.buffer.readStart ≤ readSize := by
        have fits := heard_fits (signalled.trans woken) rest
        rwa [produce_readEnd,produce_readStart] at fits
      have unread (busy : console.consumer.signal = .top ∨ console.consumer.signal = .processing) :
          console.buffer.readEnd+size = console.buffer.readStart := by
        rw [← signalled] at busy
        have left := unheard busy rest
        rwa [produce_readEnd,produce_readStart] at left
      cases stage : console.consumer with
      | waiting =>
        rw [stage] at few
        exact Or.inr ⟨Or.inl rfl,few rfl⟩
      | woken =>
        rw [stage] at few
        exact Or.inr ⟨Or.inr rfl,few rfl⟩
      | top =>
        have drained := sound.drained.resolve_left (by simp [stage])
        have left := unread (by simp [stage,Consumer.signal])
        omega
      | processing =>
        have drained := sound.drained.resolve_left (by simp [stage])
        have left := unread (by simp [stage,Consumer.signal])
        omega

theorem start_sound : start.Sound := ⟨⟨rfl,Int.le_refl 0,Int.le_refl 0⟩,by decide,Or.inr rfl⟩

/-- If what is read has room and every read with data falls between the begin of a wait and
the drain that ends it, then no wait leaves bytes behind; after any other the thread waits on
them or a store has left its array. -/
theorem wakeup_kept (turns : List Section) :
    (Transition.Meets step Heard start turns → Kept start turns) ∧
      (Transition.Probed Kept Probe start turns ↔ Transition.Meets step Heard start turns) :=
  Transition.throughout_probed Probe Sound (fun _ sound => sound.noneLost) (fun _ turn _ sound => sound.step turn)
    (fun console _ _ => probe_heard console) (fun _ _ _ sound => sound.broken) start start_sound turns

/-- The first bytes come before the thread waits for the first time. -/
theorem wakeup_early : ¬∀ turns, Kept start turns := by
  intro always
  have lost : (8 : Int) = 0 := (((always [.produce 8,.consume]).later rfl).later rfl).start.drained rfl
  exact absurd lost (by omega)

end Console
end Libsme.Serial
