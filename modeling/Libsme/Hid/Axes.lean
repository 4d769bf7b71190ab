import Libsme.Hid.Report

/-! mouse_fill_report and joystick_fill_report. Both end in the same handling of numbers,
`number`, at their own place in the report. -/
namespace Libsme.Hid
open CString (strtol toChar)
open Semantics.Rfc4648 (ascii)

def mmod : List Options := [⟨ascii "--b1",0x01⟩,⟨ascii "--b2",0x02⟩,⟨ascii "--b3",0x04⟩]

def jbuttons : List Options := [⟨ascii "--b1",0x10⟩,⟨ascii "--b2",0x20⟩,⟨ascii "--b3",0x40⟩,⟨ascii "--b4",0x80⟩]

def jhats : List Options :=
  [⟨ascii "--hat1",0x00⟩,⟨ascii "--hat2",0x01⟩,⟨ascii "--hat3",0x02⟩,⟨ascii "--hat4",0x03⟩,⟨ascii "--hatneutral",0x04⟩]

def jmod : List Options := jbuttons ++ jhats

/-- !(tok[0] == '-' && tok[1] == '-'), where a token ends in a zero. -/
def Numeric (tok : Token) : Prop := ¬(tok.getD 0 0 = 45 ∧ tok.getD 1 0 = 45)

instance (tok : Token) : Decidable (Numeric tok) := inferInstanceAs (Decidable ¬_)

/-- The end of both turns, with the values from report[base] on, `limit` of them. -/
def number (base limit : Nat) (state : Filling) (tok : Token) : Traced Event Filling :=
  if Numeric tok ∧ state.count < limit then do
    let mvt := state.count
    let next ← state.store (base+mvt) (toChar (strtol tok).value)
    let mvt := mvt+1
    if (strtol tok).errno ≠ 0 then do
      Traced.emit (.print (ascii "Bad value:'" ++ tok ++ ascii "'\n"))
      -- mvt-- has the place of the value that would come next
      let next ← next.store (base+mvt) 0
      pure { next with count := mvt-1 }
    else pure { next with count := mvt }
  else unknown state tok

def mouseTurn (state : Filling) (tok : Token) : Traced Event Filling :=
  if tok = holdOption then pure { state with hold := 1 }
  else
    match search mmod tok with
    | some val => state.store 0 (state.report.getD 0 0 ||| val)
    | none => number 1 2 state tok

def mouseFillReport (report buf : List UInt8) (hold : Int) : Traced Event (Int × Filling) :=
  fill 3 mouseTurn ⟨report,0,hold⟩ (reportTokens buf)

def joystickTurn (state : Filling) (tok : Token) : Traced Event Filling :=
  match search jmod tok with
  | some val => state.store 3 (state.report.getD 3 0 &&& 0xF0 ||| val)
  | none => number 0 3 state tok

def joystickFillReport (report buf : List UInt8) : Traced Event (Int × Filling) := do
  let state ← Filling.store ⟨report,0,1⟩ 3 0x04
  fill 4 joystickTurn state (reportTokens buf)

theorem options_not_numeric : ∀ entry ∈ mmod ++ jmod, ¬Numeric entry.opt := by decide +kernel

theorem holdOption_not_numeric : ¬Numeric holdOption := by decide +kernel

theorem not_option_of_numeric {tok : Token} (numeric : Numeric tok) : search mmod tok = none ∧ search jmod tok = none := by
  constructor
  · by_contra some_option
    obtain ⟨val,found⟩ := Option.ne_none_iff_exists'.mp some_option
    obtain ⟨entry,member,rfl,_⟩ := search_some found
    exact options_not_numeric entry (List.mem_append_left _ member) numeric
  · by_contra some_option
    obtain ⟨val,found⟩ := Option.ne_none_iff_exists'.mp some_option
    obtain ⟨entry,member,rfl,_⟩ := search_some found
    exact options_not_numeric entry (List.mem_append_right _ member) numeric

end Libsme.Hid
