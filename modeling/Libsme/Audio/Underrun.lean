import Libsme.Audio.PcmWrite

/-! pcm_write against a device that underruns. After an underrun snd_pcm_writei fails with
-EPIPE until snd_pcm_prepare is called; the loop makes no such call. -/
namespace Libsme.Audio

/-- A device as ALSA specifies it, by the numbers of the calls of snd_pcm_writei: before which
of them it underruns, how many frames it has room for at them, and what a call without
room returns. -/
structure AlsaDevice where
  underrun : Nat → Bool
  accepts : Nat → Nat
  refusal : Nat → WriteResult
  refuses : ∀ call, refusal call = .frames 0 ∨ refusal call = .eagain ∨ refusal call = .estrpipe
  finite : ∃ last, ∀ call, last ≤ call → underrun call = false
  progress : ∀ call, ∃ later, call ≤ later ∧ 0 < accepts later

/-- The program and the device; `stopped` says that the device has underrun. -/
structure Driven where
  call : Nat
  stopped : Bool
  writing : Writing

namespace AlsaDevice

def writei (device : AlsaDevice) (call count : Nat) (stopped : Bool) : WriteResult :=
  if stopped then .epipe
  else if device.accepts call = 0 then device.refusal call
  else .frames (min (device.accepts call) count)

/-- One turn of the loop; `recovery` is what it does to a stopped device after -EPIPE. -/
def turn (device : AlsaDevice) (recovery : Bool → Bool) (bitsPerFrame : Nat) (driven : Driven) : Option Driven :=
  let stopped := driven.stopped || device.underrun driven.call
  let r := device.writei driven.call driven.writing.count stopped
  (takeResult bitsPerFrame driven.writing r).map fun writing =>
    ⟨driven.call+1,if r = .epipe then recovery stopped else stopped,writing⟩

def drive (device : AlsaDevice) (recovery : Bool → Bool) (bitsPerFrame : Nat) : Nat → Driven → Outcome
  | 0, driven => if driven.writing.count = 0 then .returned driven.writing else .waiting driven.writing
  | turns+1, driven =>
    if driven.writing.count = 0 then .returned driven.writing
    else
      match device.turn recovery bitsPerFrame driven with
      | none => .exited
      | some next => device.drive recovery bitsPerFrame turns next

def Returns (device : AlsaDevice) (recovery : Bool → Bool) (bitsPerFrame : Nat) (driven : Driven) : Prop :=
  ∃ turns final, device.drive recovery bitsPerFrame turns driven = .returned final

/-- pcm_write ends on the device; the call of xrun is commented out. -/
def Terminates (device : AlsaDevice) (write : WriteCall) : Prop :=
  device.Returns id write.params.bitsPerFrame ⟨0,false,write.writing⟩

/-- The frames there is room for in the `calls` calls from number `first` on. -/
def room (device : AlsaDevice) (first calls : Nat) : Nat :=
  ((List.range calls).map fun i => device.accepts (first+i)).sum

theorem room_succ (device : AlsaDevice) (first calls : Nat) :
    device.room first (calls+1) = device.accepts first+device.room (first+1) calls := by
  have shift : (fun i => device.accepts (first+1+i)) = (fun i => device.accepts (first+i)) ∘ Nat.succ := by
    funext i
    exact congrArg device.accepts (Nat.add_right_comm first 1 i)
  rw [room,room,List.range_succ_eq_map,List.map_cons,List.map_map,List.sum_cons,shift]
  rfl

section Turns
variable {device : AlsaDevice} {recovery : Bool → Bool} {bitsPerFrame : Nat} {driven : Driven}

theorem returns_done (done : driven.writing.count = 0) : device.Returns recovery bitsPerFrame driven :=
  ⟨0,_,if_pos done⟩

theorem returns_turn {next : Driven} (taken : device.turn recovery bitsPerFrame driven = some next)
    (returns : device.Returns recovery bitsPerFrame next) : device.Returns recovery bitsPerFrame driven := by
  by_cases done : driven.writing.count = 0
  · exact returns_done done
  · obtain ⟨turns,final,returned⟩ := returns
    refine ⟨turns+1,final,?_⟩
    rw [drive,if_neg done,taken]
    exact returned

theorem turn_running (running : driven.stopped = false) (fine : device.underrun driven.call = false) :
    ∃ writing, device.turn recovery bitsPerFrame driven = some ⟨driven.call+1,false,writing⟩ ∧
      writing.count = driven.writing.count-device.accepts driven.call := by
  unfold turn
  rw [running,fine,Bool.or_false]
  by_cases full : device.accepts driven.call = 0
  · refine ⟨driven.writing,?_,by rw [full,Nat.sub_zero]⟩
    have r : device.writei driven.call driven.writing.count false = device.refusal driven.call := if_pos full
    dsimp only
    rw [r]
    rcases device.refuses driven.call with none | again | suspended
    · rw [none]
      rfl
    · rw [again]
      rfl
    · rw [suspended]
      rfl
  · have r : device.writei driven.call driven.writing.count false =
        .frames (min (device.accepts driven.call) driven.writing.count) := if_neg full
    dsimp only
    rw [r,takeResult_frames]
    refine ⟨_,rfl,?_⟩
    dsimp only
    omega

theorem turn_stopped (stopped : (driven.stopped || device.underrun driven.call) = true) :
    device.turn recovery bitsPerFrame driven = some ⟨driven.call+1,recovery true,driven.writing⟩ := by
  unfold turn
  rw [stopped]
  rfl

/-- Without recovery the loop goes on for ever once the device has stopped. -/
theorem stopped_stuck (turns : Nat) (stopped : driven.stopped = true) (more : driven.writing.count ≠ 0) (final : Writing) :
    device.drive id bitsPerFrame turns driven ≠ .returned final := by
  induction turns generalizing driven with
  | zero =>
    rw [drive,if_neg more]
    exact Outcome.noConfusion
  | succ turns ih =>
    have waits := @turn_stopped device id bitsPerFrame driven (by rw [stopped]; rfl)
    rw [drive,if_neg more,waits]
    exact ih rfl more

/-- A device that does not underrun before it has room for all frames takes them all. -/
theorem returns_room {calls : Nat} (running : driven.stopped = false)
    (fine : ∀ i < calls, device.underrun (driven.call+i) = false)
    (enough : driven.writing.count ≤ device.room driven.call calls) : device.Returns recovery bitsPerFrame driven := by
  induction calls generalizing driven with
  | zero => exact returns_done (Nat.le_zero.mp enough)
  | succ calls ih =>
    obtain ⟨writing,taken,count⟩ := @turn_running device recovery bitsPerFrame driven running (fine 0 (Nat.succ_pos calls))
    rw [room_succ] at enough
    refine returns_turn taken (ih rfl ?_ ?_)
    · intro i bound
      have later := fine (i+1) (Nat.succ_lt_succ bound)
      rwa [← Nat.add_assoc,Nat.add_right_comm] at later
    · change writing.count ≤ device.room (driven.call+1) calls
      omega

theorem room_returns {turns : Nat} {final : Writing} (running : driven.stopped = false)
    (returned : device.drive id bitsPerFrame turns driven = .returned final) :
    ∃ calls, (∀ i < calls, device.underrun (driven.call+i) = false) ∧
      driven.writing.count ≤ device.room driven.call calls := by
  by_cases done : driven.writing.count = 0
  · exact ⟨0,fun i bound => absurd bound (Nat.not_lt_zero i),Nat.le_of_eq done⟩
  · induction turns generalizing driven with
    | zero =>
      rw [drive,if_neg done] at returned
      cases returned
    | succ turns ih =>
      by_cases fine : device.underrun driven.call = false
      · obtain ⟨writing,taken,count⟩ := @turn_running device id bitsPerFrame driven running fine
        rw [drive,if_neg done,taken] at returned
        obtain ⟨calls,later,enough⟩ : ∃ calls, (∀ i < calls, device.underrun (driven.call+1+i) = false) ∧
            writing.count ≤ device.room (driven.call+1) calls := by
          by_cases last : writing.count = 0
          · exact ⟨0,fun i bound => absurd bound (Nat.not_lt_zero i),Nat.le_of_eq last⟩
          · exact @ih ⟨driven.call+1,false,writing⟩ rfl returned last
        refine ⟨calls+1,?_,?_⟩
        · intro i bound
          cases i with
          | zero => exact fine
          | succ i =>
            have after := later i (Nat.lt_of_succ_lt_succ bound)
            rwa [Nat.add_right_comm] at after
        · rw [room_succ]
          omega
      · have halted : (driven.stopped || device.underrun driven.call) = true := by
          rw [running,Bool.false_or]
          exact Bool.eq_true_of_not_eq_false fine
        rw [drive,if_neg done,turn_stopped halted] at returned
        exact absurd returned (@stopped_stuck device _ ⟨driven.call+1,true,driven.writing⟩ turns rfl done final)

end Turns

/-- pcm_write ends exactly on the devices that have room for all frames before they
underrun for the first time. -/
theorem terminates_iff (device : AlsaDevice) (write : WriteCall) : device.Terminates write ↔
    ∃ calls, (∀ call < calls, device.underrun call = false) ∧
      max write.count write.chunkSize ≤ ((List.range calls).map device.accepts).sum := by
  have room (calls : Nat) : device.room 0 calls = ((List.range calls).map device.accepts).sum := by
    simp only [AlsaDevice.room,Nat.zero_add]
  have count : write.writing.count = max write.count write.chunkSize := write.writing_count
  constructor
  · rintro ⟨turns,final,returned⟩
    obtain ⟨calls,fine,enough⟩ := room_returns rfl returned
    refine ⟨calls,fun call bound => ?_,?_⟩
    · have here := fine call bound
      rwa [Nat.zero_add] at here
    · rw [← room,← count]
      exact enough
  · rintro ⟨calls,fine,enough⟩
    refine @returns_room device id _ _ calls rfl (fun i bound => ?_) ?_
    · rw [Nat.zero_add]
      exact fine i bound
    · rw [room]
      exact count.le.trans enough

theorem room_last (device : AlsaDevice) (first calls : Nat) :
    device.room first (calls+1) = device.room first calls+device.accepts (first+calls) := by
  simp [room,List.range_succ]

theorem room_add (device : AlsaDevice) (first calls more : Nat) :
    device.room first (calls+more) = device.room first calls+device.room (first+calls) more := by
  induction more with
  | zero => rfl
  | succ more ih => rw [← Nat.add_assoc,room_last,ih,room_last,Nat.add_assoc,Nat.add_assoc first]

theorem room_unbounded (device : AlsaDevice) (first count : Nat) : ∃ calls, count ≤ device.room first calls := by
  induction count generalizing first with
  | zero => exact ⟨0,Nat.zero_le _⟩
  | succ count ih =>
    obtain ⟨later,after,takes⟩ := device.progress first
    obtain ⟨calls,enough⟩ := ih (later+1)
    have place : first+(later-first) = later := by omega
    refine ⟨later-first+1+calls,?_⟩
    rw [room_add,room_last,← Nat.add_assoc,place]
    omega

/-- Were snd_pcm_prepare called where the call of xrun is commented out, the loop would
end on every device. -/
theorem prepared_returns (device : AlsaDevice) (bitsPerFrame : Nat) (driven : Driven) :
    device.Returns (fun _ => false) bitsPerFrame driven := by
  obtain ⟨last,fine⟩ := device.finite
  have settled (driven : Driven) (running : driven.stopped = false) (late : last ≤ driven.call) :
      device.Returns (fun _ => false) bitsPerFrame driven := by
    obtain ⟨calls,enough⟩ := device.room_unbounded driven.call driven.writing.count
    exact returns_room running (fun i _ => fine _ (Nat.le_add_right_of_le late)) enough
  -- Each call brings the program nearer to the last underrun.
  obtain ⟨rest,far⟩ : ∃ rest, last ≤ driven.call+rest := ⟨last,Nat.le_add_left _ _⟩
  induction rest generalizing driven with
  | zero =>
    by_cases running : driven.stopped = false
    · exact settled driven running far
    · have halted : (driven.stopped || device.underrun driven.call) = true := by
        rw [Bool.eq_true_of_not_eq_false running]
        rfl
      exact returns_turn (turn_stopped halted) (settled _ rfl (Nat.le_succ_of_le far))
  | succ rest ih =>
    have nearer : last ≤ driven.call+1+rest := by omega
    by_cases halted : (driven.stopped || device.underrun driven.call) = true
    · exact returns_turn (turn_stopped halted) (ih _ nearer)
    · obtain ⟨running,quiet⟩ := Bool.or_eq_false_iff.mp (Bool.eq_false_of_not_eq_true halted)
      obtain ⟨writing,taken,-⟩ := @turn_running device (fun _ => false) bitsPerFrame driven running quiet
      exact returns_turn taken (ih _ nearer)

section Delivery
variable {device : AlsaDevice} {recovery : Bool → Bool} {bitsPerFrame turns : Nat} {driven next : Driven} {final : Writing}

private theorem writei_offered (call count : Nat) (stopped : Bool) {writing : Writing} {results : List WriteResult}
    (before : Writing) (same : before.count = count)
    (taken : takeResult bitsPerFrame before (device.writei call count stopped) = some writing)
    (offered : Offered writing.count results) : Offered count (device.writei call count stopped::results) := by
  subst same
  unfold writei at taken ⊢
  cases stopped with
  | true =>
    obtain rfl := Option.some.inj taken
    exact offered
  | false =>
    by_cases full : device.accepts call = 0
    · simp only [full,if_true,Bool.false_eq_true,if_false] at taken ⊢
      rcases device.refuses call with none | again | suspended
      · rw [none] at taken ⊢
        obtain rfl := Option.some.inj taken
        exact ⟨Nat.zero_le _,offered⟩
      · rw [again] at taken ⊢
        obtain rfl := Option.some.inj taken
        exact offered
      · rw [suspended] at taken ⊢
        obtain rfl := Option.some.inj taken
        exact offered
    · simp only [full,Bool.false_eq_true,if_false,takeResult_frames] at taken ⊢
      obtain rfl := Option.some.inj taken
      exact ⟨Nat.min_le_right _ _,offered⟩

theorem drive_run (returned : device.drive recovery bitsPerFrame turns driven = .returned final) :
    ∃ results, Offered driven.writing.count results ∧ writeLoop bitsPerFrame driven.writing results = .returned final := by
  induction turns generalizing driven with
  | zero =>
    by_cases done : driven.writing.count = 0
    · rw [drive,if_pos done] at returned
      refine ⟨[],trivial,?_⟩
      rw [writeLoop,if_pos done]
      exact returned
    · rw [drive,if_neg done] at returned
      cases returned
  | succ turns ih =>
    by_cases done : driven.writing.count = 0
    · rw [drive,if_pos done] at returned
      refine ⟨[],trivial,?_⟩
      rw [writeLoop,if_pos done]
      exact returned
    · rw [drive,if_neg done] at returned
      cases turned : device.turn recovery bitsPerFrame driven with
      | none =>
        rw [turned] at returned
        cases returned
      | some next =>
        rw [turned] at returned
        obtain ⟨results,offered,ran⟩ := ih returned
        obtain ⟨writing,taken,rfl⟩ := Option.map_eq_some_iff.mp turned
        refine ⟨_::results,writei_offered _ _ _ driven.writing rfl taken offered,?_⟩
        rw [writeLoop,if_neg done,taken]
        exact ran

/-- On every device on which it ends, pcm_write has delivered its chunk. -/
theorem returned_delivers {write : WriteCall}
    (returned : device.drive recovery write.params.bitsPerFrame turns ⟨0,false,write.writing⟩ = .returned final) :
    final.accepted = write.expected ∧ final.result = write.total := by
  obtain ⟨results,offered,ran⟩ := drive_run returned
  have whole := writeLoop_delivers results write.writing offered write.writing_delivers ran
  rwa [write.writing_data] at whole

end Delivery
end AlsaDevice

def underrunning : AlsaDevice where
  underrun := fun call => call == 0
  accepts := fun _ => 1
  refusal := fun _ => .eagain
  refuses := fun _ => Or.inr (Or.inl rfl)
  finite := ⟨1,fun _ late => beq_false_of_ne (Nat.ne_of_gt late)⟩
  progress := fun call => ⟨call,Nat.le_refl call,Nat.one_pos⟩

theorem pcmWrite_stuck : ¬∀ device write, AlsaDevice.Terminates device write := by
  intro always
  obtain ⟨turns,final,returned⟩ := always underrunning shortCall
  obtain ⟨calls,fine,enough⟩ := AlsaDevice.room_returns rfl returned
  cases calls with
  | zero => exact absurd enough (by decide)
  | succ calls => exact absurd (fine 0 (Nat.succ_pos calls)) (by decide)

end Libsme.Audio
