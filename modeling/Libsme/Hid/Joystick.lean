import Libsme.Hid.Axes
import Mathlib.Data.List.DropRight

/-! Hat and buttons of the joystick share report[3]: the hat is its low nibble, the buttons
are its high nibble. A button token clears the hat that came before it. -/
namespace Libsme.Hid
open Semantics.Rfc4648 (ascii)

def hatNeutral : UInt8 := 0x04

def lastHat (tokens : List Token) : Option UInt8 := (tokens.filterMap (search jhats)).getLast?

def buttonMasks (tokens : List Token) : UInt8 := (tokens.filterMap (search jbuttons)).foldl (· ||| ·) 0

structure Independent (tokens : List Token) (packed : UInt8) : Prop where
  hat : packed &&& 0x0F = (lastHat tokens).getD hatNeutral
  buttons : packed &&& 0xF0 = buttonMasks tokens

structure OptionLine where
  report : List UInt8
  size : report.length = 8
  buf : List UInt8
  stays : quit ∉ reportTokens buf
  options : ∀ tok ∈ reportTokens buf, ¬Numeric tok

def afterHat (tokens : List Token) : List Token := tokens.rtakeWhile fun tok => search jhats tok = none

/-- No button token comes after the last hat token, or that one is --hat1, whose code is
what a button leaves. -/
def HatKept (tokens : List Token) : Prop :=
  (∀ tok ∈ afterHat tokens, search jbuttons tok = none) ∨ lastHat tokens = some 0

theorem or_and (left right mask : UInt8) :
    (left ||| right) &&& mask = left &&& mask ||| right &&& mask := by
  apply UInt8.toBitVec_inj.mp
  simp only [UInt8.toBitVec_and,UInt8.toBitVec_or,BitVec.and_or_distrib_right]

theorem low_nibble (packed val : UInt8) : (packed &&& 0xF0 ||| val) &&& 0x0F = val &&& 0x0F := by
  have apart : (0xF0 : UInt8) &&& 0x0F = 0 := rfl
  rw [or_and,UInt8.and_assoc,apart,UInt8.and_zero,UInt8.zero_or]

theorem high_nibble (packed val : UInt8) :
    (packed &&& 0xF0 ||| val) &&& 0xF0 = packed &&& 0xF0 ||| val &&& 0xF0 := by
  rw [or_and,UInt8.and_assoc,UInt8.and_self]

private theorem hat_entries : ∀ entry ∈ jhats,
    entry.val &&& 0x0F = entry.val ∧ entry.val &&& 0xF0 = 0 ∧ search jbuttons entry.opt = none := by
  decide +kernel

private theorem button_entries : ∀ entry ∈ jbuttons,
    entry.val &&& 0x0F = 0 ∧ entry.val &&& 0xF0 = entry.val ∧ search jhats entry.opt = none := by
  decide +kernel

theorem hat_token {tok : Token} {val : UInt8} (found : search jhats tok = some val) :
    val &&& 0x0F = val ∧ val &&& 0xF0 = 0 ∧ search jbuttons tok = none := by
  obtain ⟨entry,member,rfl,rfl⟩ := search_some found
  exact hat_entries entry member

theorem button_token {tok : Token} {val : UInt8} (found : search jbuttons tok = some val) :
    val &&& 0x0F = 0 ∧ val &&& 0xF0 = val ∧ search jhats tok = none := by
  obtain ⟨entry,member,rfl,rfl⟩ := search_some found
  exact button_entries entry member

/-- The low nibble that a line of options leaves. -/
def hatNibble (tokens : List Token) : UInt8 :=
  if ∀ tok ∈ afterHat tokens, search jbuttons tok = none then (lastHat tokens).getD hatNeutral else 0

theorem lastHat_concat (tokens : List Token) (tok : Token) :
    lastHat (tokens ++ [tok]) = (search jhats tok).or (lastHat tokens) := by
  rw [lastHat,List.filterMap_append]
  cases found : search jhats tok <;> simp [found,lastHat]

theorem buttonMasks_concat (tokens : List Token) (tok : Token) :
    buttonMasks (tokens ++ [tok]) = buttonMasks tokens ||| (search jbuttons tok).getD 0 :=
  masks_concat jbuttons tokens tok

theorem hatNibble_hat {tok : Token} {val : UInt8} (found : search jhats tok = some val) (tokens : List Token) :
    hatNibble (tokens ++ [tok]) = val := by
  have last : afterHat (tokens ++ [tok]) = [] := by
    rw [afterHat,List.rtakeWhile_concat_neg]
    simp [found]
  rw [hatNibble,last,if_pos fun _ member => absurd member List.not_mem_nil,lastHat_concat,found]
  rfl

private theorem afterHat_other {tok : Token} (other : search jhats tok = none) (tokens : List Token) :
    afterHat (tokens ++ [tok]) = afterHat tokens ++ [tok] := by
  rw [afterHat,List.rtakeWhile_concat_pos]
  · rfl
  · simp [other]

theorem hatNibble_button {tok : Token} {val : UInt8} (found : search jbuttons tok = some val) (tokens : List Token) :
    hatNibble (tokens ++ [tok]) = 0 := by
  rw [hatNibble,afterHat_other (button_token found).2.2,if_neg]
  intro none_pressed
  have absent := none_pressed tok (by simp)
  exact Option.some_ne_none _ (found.symm.trans absent)

theorem hatNibble_unknown {tok : Token} (noHat : search jhats tok = none) (noButton : search jbuttons tok = none)
    (tokens : List Token) : hatNibble (tokens ++ [tok]) = hatNibble tokens := by
  rw [hatNibble,afterHat_other noHat,lastHat_concat,noHat,Option.none_or,hatNibble]
  simp only [List.mem_append,List.mem_singleton,or_imp,forall_and,forall_eq,noButton,and_true]

structure Packed (tokens : List Token) (state : Filling) : Prop where
  size : state.report.length = 8
  low : state.report.getD 3 0 &&& 0x0F = hatNibble tokens
  high : state.report.getD 3 0 &&& 0xF0 = buttonMasks tokens

theorem packed_start {report : List UInt8} (size : report.length = 8) : Packed [] ⟨report.set 3 0x04,0,1⟩ := by
  have here : (report.set 3 0x04).getD 3 0 = 0x04 := by simp [size]
  refine ⟨?_,?_,?_⟩
  · rw [List.length_set,size]
  · rw [here]
    rfl
  · rw [here]
    rfl

private theorem packed_option {state : Filling} {tokens : List Token} {tok : Token} {val : UInt8}
    (packed : Packed tokens state) (found : search jmod tok = some val)
    (low : val &&& 0x0F = hatNibble (tokens ++ [tok])) (high : val &&& 0xF0 = (search jbuttons tok).getD 0) :
    Packed (tokens ++ [tok]) (joystickTurn state tok).value := by
  obtain ⟨size,_,buttons⟩ := packed
  have here : (state.report.set 3 (state.report.getD 3 0 &&& 0xF0 ||| val)).getD 3 0 =
      state.report.getD 3 0 &&& 0xF0 ||| val := by
    simp [size]
  simp only [joystickTurn,found,store_value]
  refine ⟨?_,?_,?_⟩
  · rw [List.length_set,size]
  · rw [here,low_nibble,low]
  · rw [here,high_nibble,buttons,high,buttonMasks_concat]

theorem packed_turn {state : Filling} {tokens : List Token} {tok : Token} (packed : Packed tokens state)
    (option : ¬Numeric tok) : Packed (tokens ++ [tok]) (joystickTurn state tok).value := by
  cases button : search jbuttons tok with
  | some val =>
    obtain ⟨low,high,_⟩ := button_token button
    apply packed_option packed
    · rw [jmod,search_append,button]
      rfl
    · rw [low,hatNibble_button button]
    · rw [high,button]
      rfl
  | none =>
    cases hat : search jhats tok with
    | some val =>
      obtain ⟨low,high,_⟩ := hat_token hat
      apply packed_option packed
      · rw [jmod,search_append,button,hat]
        rfl
      · rw [low,hatNibble_hat hat]
      · rw [high,button]
        rfl
    | none =>
      have missing : search jmod tok = none := by
        rw [jmod,search_append,button,hat]
        rfl
      have same : (joystickTurn state tok).value = state := by
        simp [joystickTurn,missing,number,option]
      obtain ⟨size,low,high⟩ := packed
      rw [same]
      refine ⟨size,?_,?_⟩
      · rw [low,hatNibble_unknown hat button]
      · rw [high,buttonMasks_concat,button]
        simp

private theorem packed_run {state : Filling} (start : Packed [] state) {tokens : List Token}
    (options : ∀ tok ∈ tokens, ¬Numeric tok) : Packed tokens (reached joystickTurn state tokens) := by
  induction tokens using List.reverseRecOn with
  | nil => exact start
  | append_singleton tokens tok ih =>
    rw [reached_concat]
    exact packed_turn (ih fun other member => options other (List.mem_append_left _ member))
      (options tok (by simp))

private theorem joystick_packed (line : OptionLine) :
    Packed (reportTokens line.buf) (joystickFillReport line.report line.buf).value.2 := by
  have run := packed_run (packed_start line.size) line.options
  rw [joystickFillReport,Traced.bind_value,store_value,fill_report line.stays]
  exact run

/-- joystick_fill_report keeps hat and buttons apart on exactly the lines whose hat is not
followed by a button. -/
theorem joystickFillReport_independent_iff (line : OptionLine) :
    Independent (reportTokens line.buf) ((joystickFillReport line.report line.buf).value.2.report.getD 3 0) ↔
      HatKept (reportTokens line.buf) := by
  obtain ⟨_,low,high⟩ := joystick_packed line
  have exact_low : Independent (reportTokens line.buf)
      ((joystickFillReport line.report line.buf).value.2.report.getD 3 0) ↔
      hatNibble (reportTokens line.buf) = (lastHat (reportTokens line.buf)).getD hatNeutral :=
    ⟨fun independent => low.symm.trans independent.hat,fun same => ⟨low.trans same,high⟩⟩
  rw [exact_low,hatNibble,HatKept]
  by_cases none_after : ∀ tok ∈ afterHat (reportTokens line.buf), search jbuttons tok = none
  · rw [if_pos none_after]
    exact iff_of_true rfl (Or.inl none_after)
  · rw [if_neg none_after]
    constructor
    · intro zero
      cases last : lastHat (reportTokens line.buf) with
      | none =>
        rw [last] at zero
        exact absurd zero (by decide)
      | some code =>
        rw [last] at zero
        exact Or.inr (congrArg some zero.symm)
    · rintro (never | last)
      · exact absurd never none_after
      · rw [last]
        rfl

def buttonLine : OptionLine where
  report := List.replicate 8 0
  size := rfl
  buf := ascii "--hat2 --b1" ++ [0]
  stays := by decide +kernel
  options := by decide +kernel

theorem joystickFillReport_buttonLine : ¬∀ line : OptionLine, Independent (reportTokens line.buf)
    ((joystickFillReport line.report line.buf).value.2.report.getD 3 0) := by
  intro always
  have hat := (always buttonLine).hat
  revert hat
  decide +kernel

end Libsme.Hid
