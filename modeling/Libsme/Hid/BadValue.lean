import Libsme.Hid.Joystick

/-! Numbers that strtol rejects. The value is stored before errno is looked at, and the
undo clears the place after it, which for the third value of the joystick holds hat and
buttons. -/
namespace Libsme.Hid
open CString (strtol toChar)
open Semantics.Rfc4648 (ascii)

def Rejected (tok : Token) : Prop := Numeric tok ∧ (strtol tok).errno ≠ 0

instance (tok : Token) : Decidable (Rejected tok) := inferInstanceAs (Decidable (_ ∧ _))

def accepted (tokens : List Token) : Nat :=
  tokens.countP fun tok => Numeric tok ∧ (strtol tok).errno = 0

/-- `P` holds of every token and the tokens before it. -/
def AtEach (P : List Token → Token → Prop) (tokens : List Token) : Prop :=
  ∀ before tok after, tokens = before ++ tok::after → P before tok

structure Call where
  report : List UInt8
  size : report.length = 8
  buf : List UInt8
  hold : Int

def Call.tokens (call : Call) : List Token := reportTokens call.buf

def Unchanged (turn : Filling → Token → Traced Event Filling) (state : Filling) (tok : Token) : Prop :=
  (turn state tok).value.report = state.report ∧ (turn state tok).value.count = state.count

/-- Rejected numbers change nothing, and the report is that of the line without them. -/
structure Traceless (turn : Filling → Token → Traced Event Filling) (start : Filling) (tokens : List Token)
    (report : List UInt8) : Prop where
  unchanged : AtEach (fun before tok => Rejected tok → Unchanged turn (reached turn start before) tok) (handled tokens)
  removed : report = (reached turn start (handled (tokens.filter fun tok => ¬Rejected tok))).report

def Call.mouse (call : Call) : Filling := ⟨call.report,0,call.hold⟩

def Call.joystick (call : Call) : Filling := ⟨call.report.set 3 0x04,0,1⟩

def MouseTraceless (call : Call) : Prop :=
  Traceless mouseTurn call.mouse call.tokens (mouseFillReport call.report call.buf call.hold).value.2.report

/-- For the joystick, moreover, no number changes hat and buttons. -/
structure JoystickTraceless (call : Call) : Prop where
  traceless : Traceless joystickTurn call.joystick call.tokens (joystickFillReport call.report call.buf).value.2.report
  packed : AtEach (fun before tok => Numeric tok →
    let state := reached joystickTurn call.joystick before
    (joystickTurn state tok).value.report.getD 3 0 = state.report.getD 3 0) (handled call.tokens)

/-- What strtol gives for the rejected number is what the place already holds, and the
next place holds 0. -/
def MouseHarmless (call : Call) : Prop :=
  AtEach (fun before tok => Rejected tok → accepted before < 2 →
    call.report.getD (1+accepted before) 0 = toChar (strtol tok).value ∧
      call.report.getD (2+accepted before) 0 = 0) (handled call.tokens)

def NothingPressed (tokens : List Token) : Prop :=
  lastHat tokens = some 0 ∧ ∀ tok ∈ tokens, search jbuttons tok = none

/-- The same for the joystick, where the place after the third value holds 0 when the last
hat token was --hat1 and no button token came. -/
def JoystickHarmless (call : Call) : Prop :=
  AtEach (fun before tok => Rejected tok → accepted before < 3 →
    call.report.getD (accepted before) 0 = toChar (strtol tok).value ∧
      (if accepted before < 2 then call.report.getD (accepted before+1) 0 = 0 else NothingPressed before))
    (handled call.tokens)

theorem atEach_concat {P : List Token → Token → Prop} (tokens : List Token) (tok : Token) :
    AtEach P (tokens ++ [tok]) ↔ AtEach P tokens ∧ P tokens tok := by
  constructor
  · intro each
    refine ⟨?_,each tokens tok [] rfl⟩
    rintro before other after rfl
    exact each before other (after ++ [tok]) (by simp)
  · rintro ⟨each,last⟩ before other after split
    rcases List.eq_nil_or_concat after with rfl | ⟨rest,final,rfl⟩
    · obtain ⟨rfl,same⟩ := List.append_inj' split rfl
      obtain rfl := List.singleton_inj.mp same
      exact last
    · rw [List.concat_eq_append,← List.cons_append,← List.append_assoc] at split
      exact each before other rest (List.append_inj' split rfl).1

theorem atEach_nil {P : List Token → Token → Prop} : AtEach P [] := by
  intro before tok after split
  simp at split

theorem set_pair_iff {report : List UInt8} {place : Nat} (inside : place+1 < report.length) (value next : UInt8) :
    (report.set place value).set (place+1) next = report ↔
      report.getD place 0 = value ∧ report.getD (place+1) 0 = next := by
  constructor
  · intro same
    rw [← same]
    simp [Nat.lt_of_succ_lt inside,inside]
  · rintro ⟨rfl,rfl⟩
    simp [Nat.lt_of_succ_lt inside,inside]

section Number
variable {base limit : Nat} {state : Filling} {tok : Token}

theorem number_full (full : ¬state.count < limit) : (number base limit state tok).value = state := by
  rw [number,if_neg fun asked => full asked.2,unknown_value]

theorem number_accepted (numeric : Numeric tok) (room : state.count < limit) (right : (strtol tok).errno = 0) :
    (number base limit state tok).value =
      ⟨state.report.set (base+state.count) (toChar (strtol tok).value),state.count+1,state.hold⟩ := by
  simp [number,numeric,room,right]

theorem number_rejected (rejected : Rejected tok) (room : state.count < limit) :
    (number base limit state tok).value =
      ⟨(state.report.set (base+state.count) (toChar (strtol tok).value)).set (base+state.count+1) 0,
        state.count,state.hold⟩ := by
  simp [number,rejected.1,room,rejected.2,Nat.add_assoc]

theorem number_hold (base limit : Nat) (state : Filling) (tok : Token) :
    (number base limit state tok).value.hold = state.hold := by
  unfold number
  split
  · by_cases error : (strtol tok).errno ≠ 0 <;> simp [error]
  · rfl

end Number

theorem mouseTurn_number {tok : Token} (numeric : Numeric tok) (state : Filling) :
    mouseTurn state tok = number 1 2 state tok := by
  have other : tok ≠ holdOption := fun same => holdOption_not_numeric (same ▸ numeric)
  simp only [mouseTurn,if_neg other,(not_option_of_numeric numeric).1]

theorem joystickTurn_number {tok : Token} (numeric : Numeric tok) (state : Filling) :
    joystickTurn state tok = number 0 3 state tok := by
  simp only [joystickTurn,(not_option_of_numeric numeric).2]

theorem accepted_concat (tokens : List Token) (tok : Token) :
    accepted (tokens ++ [tok]) = accepted tokens + if Numeric tok ∧ (strtol tok).errno = 0 then 1 else 0 := by
  simp only [accepted,List.countP_append,List.countP_singleton,decide_eq_true_eq]

section Run
variable {turn : Filling → Token → Traced Event Filling} {start : Filling}

/-- An invariant that the turns keep as long as rejected numbers change nothing, and under
which they change nothing on a condition, gives that condition for whole runs. -/
theorem unchanged_iff (Invariant : List Token → Filling → Prop) (Condition : List Token → Token → Prop)
    (initial : Invariant [] start)
    (kept : ∀ before state tok, Invariant before state → (Rejected tok → Unchanged turn state tok) →
      Invariant (before ++ [tok]) (turn state tok).value)
    (exactly : ∀ before state tok, Invariant before state → Rejected tok →
      (Unchanged turn state tok ↔ Condition before tok)) (tokens : List Token) :
    (AtEach (fun before tok => Rejected tok → Unchanged turn (reached turn start before) tok) tokens ↔
      AtEach (fun before tok => Rejected tok → Condition before tok) tokens) ∧
    (AtEach (fun before tok => Rejected tok → Unchanged turn (reached turn start before) tok) tokens →
      Invariant tokens (reached turn start tokens)) := by
  induction tokens using List.reverseRecOn with
  | nil => exact ⟨iff_of_true atEach_nil atEach_nil,fun _ => initial⟩
  | append_singleton tokens tok ih =>
    obtain ⟨same,holds⟩ := ih
    rw [atEach_concat,atEach_concat,reached_concat]
    constructor
    · rw [← same]
      apply and_congr_right
      intro unchanged
      exact forall_congr' fun rejected => exactly tokens _ tok (holds unchanged) rejected
    · rintro ⟨unchanged,last⟩
      exact kept tokens _ tok (holds unchanged) last

theorem handled_filter (tokens : List Token) :
    handled (tokens.filter fun tok => ¬Rejected tok) = (handled tokens).filter fun tok => ¬Rejected tok := by
  have never : ¬Rejected quit := by decide +kernel
  induction tokens with
  | nil => rfl
  | cons tok rest ih =>
    by_cases stops : tok = quit
    · simp [stops,never,handled]
    · rw [handled_cons stops,List.filter_cons,List.filter_cons]
      by_cases rejected : Rejected tok
      · simpa [rejected] using ih
      · simpa [rejected,handled_cons stops] using ih

theorem reached_filter (restores : ∀ state tok, Rejected tok → Unchanged turn state tok → (turn state tok).value = state)
    {tokens : List Token}
    (unchanged : AtEach (fun before tok => Rejected tok → Unchanged turn (reached turn start before) tok) tokens) :
    reached turn start (tokens.filter fun tok => ¬Rejected tok) = reached turn start tokens := by
  induction tokens using List.reverseRecOn with
  | nil => rfl
  | append_singleton tokens tok ih =>
    obtain ⟨earlier,last⟩ := (atEach_concat tokens tok).mp unchanged
    rw [List.filter_append,reached_concat]
    by_cases rejected : Rejected tok
    · rw [restores _ tok rejected (last rejected)]
      simpa [rejected] using ih earlier
    · rw [← ih earlier,← reached_concat]
      simp [rejected]

theorem traceless_iff {size : Int} {tokens : List Token} {base limit : Nat}
    (numbers : ∀ {tok}, Numeric tok → ∀ state, turn state tok = number base limit state tok) :
    Traceless turn start tokens (fill size turn start tokens).value.2.report ↔
      AtEach (fun before tok => Rejected tok → Unchanged turn (reached turn start before) tok) (handled tokens) := by
  refine ⟨Traceless.unchanged,fun unchanged => ⟨unchanged,?_⟩⟩
  have restores : ∀ state tok, Rejected tok → Unchanged turn state tok → (turn state tok).value = state := by
    rintro ⟨report,count,hold⟩ tok rejected ⟨same,counted⟩
    have held := number_hold base limit ⟨report,count,hold⟩ tok
    rw [← numbers rejected.1] at held
    generalize (turn ⟨report,count,hold⟩ tok).value = next at same counted held
    obtain ⟨_,_,_⟩ := next
    simp_all
  rw [fill_value,handled_filter,reached_filter restores unchanged]

end Run

/-- The count is that of the accepted numbers, and from the next place on the report up to
`bound` places is as it was. -/
structure Tracked (base limit bound : Nat) (report : List UInt8) (before : List Token) (state : Filling) : Prop where
  size : state.report.length = 8
  count : state.count = min limit (accepted before)
  slots : ∀ i, state.count ≤ i → i < bound → state.report.getD (base+i) 0 = report.getD (base+i) 0

section Slots
variable {base limit bound : Nat} {report : List UInt8} {before : List Token} {state next : Filling} {tok : Token}

theorem Tracked.option (tracked : Tracked base limit bound report before state) (option : ¬Numeric tok)
    {place : Nat} (outside : ∀ i < bound, place ≠ base+i) (count : next.count = state.count)
    (stored : next.report = state.report ∨ ∃ val, next.report = state.report.set place val) :
    Tracked base limit bound report (before ++ [tok]) next := by
  obtain ⟨size,counted,slots⟩ := tracked
  have same : next.report.length = 8 ∧
      ∀ i < bound, next.report.getD (base+i) 0 = state.report.getD (base+i) 0 := by
    rcases stored with same | ⟨val,set⟩
    · exact ⟨same ▸ size,fun i _ => by rw [same]⟩
    · rw [set,List.length_set]
      exact ⟨size,fun i inside => getD_set_ne (outside i inside) _ _⟩
  refine ⟨same.1,?_,?_⟩
  · rw [count,counted,accepted_concat,if_neg fun both => option both.1,Nat.add_zero]
  · intro i free inside
    rw [same.2 i inside,slots i (count ▸ free) inside]

theorem Tracked.number (tracked : Tracked base limit bound report before state) (numeric : Numeric tok)
    (unchanged : Rejected tok → (number base limit state tok).value.report = state.report ∧
      (number base limit state tok).value.count = state.count) :
    Tracked base limit bound report (before ++ [tok]) (Hid.number base limit state tok).value := by
  obtain ⟨size,count,slots⟩ := tracked
  by_cases right : (strtol tok).errno = 0
  · by_cases room : state.count < limit
    · rw [number_accepted numeric room right]
      refine ⟨?_,?_,?_⟩
      · rw [List.length_set,size]
      · rw [accepted_concat,if_pos ⟨numeric,right⟩]
        simp only
        omega
      · intro i free inside
        have other : base+state.count ≠ base+i := by simp only at free; omega
        rw [getD_set_ne other]
        exact slots i (Nat.le_of_succ_le free) inside
    · rw [number_full room]
      refine ⟨size,?_,slots⟩
      rw [accepted_concat]
      omega
  · obtain ⟨same,counted⟩ := unchanged ⟨numeric,right⟩
    refine ⟨?_,?_,?_⟩
    · rw [same,size]
    · rw [counted,count,accepted_concat,if_neg fun both => right both.2,Nat.add_zero]
    · rw [same,counted]
      exact slots

theorem unchanged_number_iff (tracked : Tracked base limit bound report before state) (inside : base+limit < 8)
    (rejected : Rejected tok) :
    ((number base limit state tok).value.report = state.report ∧
        (number base limit state tok).value.count = state.count) ↔
      (accepted before < limit → state.report.getD (base+accepted before) 0 = toChar (strtol tok).value ∧
        state.report.getD (base+accepted before+1) 0 = 0) := by
  obtain ⟨size,count,_⟩ := tracked
  by_cases room : state.count < limit
  · have same : state.count = accepted before := by omega
    rw [number_rejected rejected room,← same]
    simp only [room,and_true,forall_const]
    exact set_pair_iff (by omega) _ _
  · rw [number_full room]
    exact iff_of_true ⟨rfl,rfl⟩ fun less => absurd (by omega) room

end Slots

theorem mouseTurn_option {state : Filling} {tok : Token} (option : ¬Numeric tok) :
    (mouseTurn state tok).value.count = state.count ∧
      ((mouseTurn state tok).value.report = state.report ∨
        ∃ val, (mouseTurn state tok).value.report = state.report.set 0 val) := by
  by_cases holds : tok = holdOption
  · simp [mouseTurn,holds]
  · cases found : search mmod tok with
    | some val =>
      exact ⟨by simp [mouseTurn,holds,found],Or.inr ⟨state.report.getD 0 0 ||| val,by simp [mouseTurn,holds,found]⟩⟩
    | none => simp [mouseTurn,holds,found,number,option]

theorem mouse_tracked {report : List UInt8} {before : List Token} {state : Filling} {tok : Token}
    (tracked : Tracked 1 2 3 report before state) (unchanged : Rejected tok → Unchanged mouseTurn state tok) :
    Tracked 1 2 3 report (before ++ [tok]) (mouseTurn state tok).value := by
  by_cases numeric : Numeric tok
  · rw [Unchanged,mouseTurn_number numeric] at unchanged
    rw [mouseTurn_number numeric]
    exact tracked.number numeric unchanged
  · obtain ⟨count,stored⟩ := @mouseTurn_option state tok numeric
    exact tracked.option numeric (fun i _ => by omega) count stored

theorem mouse_unchanged_iff {report : List UInt8} {before : List Token} {state : Filling} {tok : Token}
    (tracked : Tracked 1 2 3 report before state) (rejected : Rejected tok) :
    Unchanged mouseTurn state tok ↔ (accepted before < 2 →
      report.getD (1+accepted before) 0 = toChar (strtol tok).value ∧ report.getD (2+accepted before) 0 = 0) := by
  rw [Unchanged,mouseTurn_number rejected.1,unchanged_number_iff tracked (by decide) rejected]
  apply forall_congr'
  intro room
  have count : state.count = accepted before := by have := tracked.count; omega
  have next : 1+accepted before+1 = 1+(accepted before+1) := by omega
  have place : 2+accepted before = 1+(accepted before+1) := by omega
  rw [next,place,tracked.slots _ (by omega) (by omega),tracked.slots _ (by omega) (by omega)]

theorem mouseTraceless_iff (call : Call) : MouseTraceless call ↔ MouseHarmless call := by
  rw [MouseTraceless,mouseFillReport]
  refine (traceless_iff mouseTurn_number).trans ?_
  refine (unchanged_iff (Tracked 1 2 3 call.report) _ ⟨call.size,rfl,fun _ _ _ => rfl⟩ ?_ ?_ _).1
  · exact fun before state tok tracked unchanged => mouse_tracked tracked unchanged
  · exact fun before state tok tracked rejected => mouse_unchanged_iff tracked rejected

theorem joystickTurn_option {state : Filling} {tok : Token} (option : ¬Numeric tok) :
    (joystickTurn state tok).value.count = state.count ∧
      ((joystickTurn state tok).value.report = state.report ∨
        ∃ val, (joystickTurn state tok).value.report = state.report.set 3 val) := by
  cases found : search jmod tok with
  | some val =>
    exact ⟨by simp [joystickTurn,found],Or.inr ⟨state.report.getD 3 0 &&& 0xF0 ||| val,by simp [joystickTurn,found]⟩⟩
  | none => simp [joystickTurn,found,number,option]

theorem joystickTurn_accepted {state : Filling} {tok : Token} (numeric : Numeric tok) (right : ¬Rejected tok) :
    (joystickTurn state tok).value.report.getD 3 0 = state.report.getD 3 0 := by
  have errno : (strtol tok).errno = 0 := by_contra fun error => right ⟨numeric,error⟩
  rw [joystickTurn_number numeric]
  by_cases room : state.count < 3
  · rw [number_accepted numeric room errno,getD_set_ne (by omega)]
  · rw [number_full room]

theorem packed_number {before : List Token} {state next : Filling} {tok : Token} (packed : Packed before state)
    (numeric : Numeric tok) (size : next.report.length = 8)
    (same : next.report.getD 3 0 = state.report.getD 3 0) : Packed (before ++ [tok]) next := by
  have missing := (not_option_of_numeric numeric).2
  rw [jmod,search_append,Option.or_eq_none_iff] at missing
  refine ⟨size,?_,?_⟩
  · rw [same,packed.low,hatNibble_unknown missing.2 missing.1]
  · rw [same,packed.high,buttonMasks_concat,missing.1,Option.getD_none,UInt8.or_zero]

theorem buttonMasks_eq_zero_iff (tokens : List Token) :
    buttonMasks tokens = 0 ↔ ∀ tok ∈ tokens, search jbuttons tok = none := by
  induction tokens using List.reverseRecOn with
  | nil => exact iff_of_true rfl fun _ member => absurd member List.not_mem_nil
  | append_singleton tokens tok ih =>
    rw [buttonMasks_concat,UInt8.or_eq_zero_iff,ih]
    simp only [List.mem_append,List.mem_singleton,or_imp,forall_and,forall_eq]
    apply and_congr_right
    intro _
    cases found : search jbuttons tok with
    | none => simp
    | some val =>
      have pressed : ∀ entry ∈ jbuttons, entry.val ≠ 0 := by decide +kernel
      obtain ⟨entry,member,_,rfl⟩ := search_some found
      simpa using pressed entry member

theorem nibbles_eq_zero_iff (packed : UInt8) : packed = 0 ↔ packed &&& 0x0F = 0 ∧ packed &&& 0xF0 = 0 := by
  constructor
  · rintro rfl
    exact ⟨rfl,rfl⟩
  · rintro ⟨low,high⟩
    have whole : packed &&& 0x0F ||| packed &&& 0xF0 = packed := by
      rw [UInt8.and_comm packed,UInt8.and_comm packed,← or_and]
      exact UInt8.neg_one_and
    rw [← whole,low,high]
    rfl

theorem packed_zero_iff {before : List Token} {state : Filling} (packed : Packed before state) :
    state.report.getD 3 0 = 0 ↔ NothingPressed before := by
  rw [nibbles_eq_zero_iff,packed.low,packed.high,buttonMasks_eq_zero_iff,NothingPressed]
  apply and_congr_left
  intro unpressed
  have none_after : ∀ tok ∈ afterHat before, search jbuttons tok = none := fun tok member =>
    unpressed tok ((List.rtakeWhile_suffix _ _).subset member)
  rw [hatNibble,if_pos none_after]
  cases last : lastHat before with
  | none => exact iff_of_false (by decide) (by simp)
  | some code => simp

structure Placed (call : Call) (before : List Token) (state : Filling) : Prop where
  tracked : Tracked 0 3 3 call.report before state
  packed : Packed before state

theorem placed_start (call : Call) : Placed call [] call.joystick := by
  have packed := packed_start call.size
  refine ⟨⟨packed.size,rfl,?_⟩,packed⟩
  intro i _ inside
  rw [Call.joystick,getD_set_ne (by omega)]

theorem joystick_placed {call : Call} {before : List Token} {state : Filling} {tok : Token}
    (placed : Placed call before state) (unchanged : Rejected tok → Unchanged joystickTurn state tok) :
    Placed call (before ++ [tok]) (joystickTurn state tok).value := by
  obtain ⟨tracked,packed⟩ := placed
  by_cases numeric : Numeric tok
  · have same : (joystickTurn state tok).value.report.getD 3 0 = state.report.getD 3 0 := by
      by_cases rejected : Rejected tok
      · rw [(unchanged rejected).1]
      · exact joystickTurn_accepted numeric rejected
    rw [Unchanged,joystickTurn_number numeric] at unchanged
    rw [joystickTurn_number numeric] at same ⊢
    have next := tracked.number numeric unchanged
    exact ⟨next,packed_number packed numeric next.size same⟩
  · refine ⟨?_,packed_turn packed numeric⟩
    obtain ⟨count,stored⟩ := @joystickTurn_option state tok numeric
    exact tracked.option numeric (fun i inside => by omega) count stored

theorem joystick_unchanged_iff {call : Call} {before : List Token} {state : Filling} {tok : Token}
    (placed : Placed call before state) (rejected : Rejected tok) :
    Unchanged joystickTurn state tok ↔ (accepted before < 3 →
      call.report.getD (accepted before) 0 = toChar (strtol tok).value ∧
        (if accepted before < 2 then call.report.getD (accepted before+1) 0 = 0 else NothingPressed before)) := by
  obtain ⟨tracked,packed⟩ := placed
  rw [Unchanged,joystickTurn_number rejected.1,unchanged_number_iff tracked (by decide) rejected]
  apply forall_congr'
  intro room
  have count : state.count = accepted before := by have := tracked.count; omega
  have place := tracked.slots (accepted before) (by omega) room
  rw [Nat.zero_add] at place ⊢
  rw [place]
  apply and_congr_right
  intro _
  by_cases inner : accepted before < 2
  · have next := tracked.slots (accepted before+1) (by omega) (by omega)
    rw [Nat.zero_add] at next
    rw [if_pos inner,next]
  · have third : accepted before+1 = 3 := by omega
    rw [if_neg inner,third]
    exact packed_zero_iff packed

theorem joystickTraceless_iff (call : Call) : JoystickTraceless call ↔ JoystickHarmless call := by
  have whole : JoystickTraceless call ↔ AtEach (fun before tok => Rejected tok →
      Unchanged joystickTurn (reached joystickTurn call.joystick before) tok) (handled call.tokens) := by
    refine ⟨fun traceless => traceless.traceless.unchanged,fun unchanged => ⟨?_,?_⟩⟩
    · exact (@traceless_iff joystickTurn call.joystick 4 call.tokens 0 3 joystickTurn_number).mpr unchanged
    · intro before tok after split numeric
      by_cases rejected : Rejected tok
      · exact congrArg (List.getD · 3 0) (unchanged before tok after split rejected).1
      · exact joystickTurn_accepted numeric rejected
  refine whole.trans (unchanged_iff (Placed call) _ (placed_start call) ?_ ?_ _).1
  · exact fun before state tok placed unchanged => joystick_placed placed unchanged
  · exact fun before state tok placed rejected => joystick_unchanged_iff placed rejected

/-- Rejected numbers leave no trace in exactly the calls where what strtol gives for them is
already in place. -/
theorem rejectedNumbers_iff (call : Call) :
    (MouseTraceless call ↔ MouseHarmless call) ∧ (JoystickTraceless call ↔ JoystickHarmless call) :=
  ⟨mouseTraceless_iff call,joystickTraceless_iff call⟩

def bigLine : Call where
  report := List.replicate 8 0
  size := List.length_replicate
  buf := ascii "1 2 9223372036854775808" ++ [0]
  hold := 0

theorem rejectedNumbers_bigLine : ¬∀ call, MouseTraceless call ∧ JoystickTraceless call := by
  intro always
  have kept := (always bigLine).2.packed [ascii "1",ascii "2"] (ascii "9223372036854775808") [] (by decide +kernel)
    (by decide +kernel)
  revert kept
  decide +kernel

end Libsme.Hid
