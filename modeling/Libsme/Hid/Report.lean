import Libsme.Library.CString
import Libsme.Library.Traced
import Libsme.Semantics.Rfc4648

/-! What the fill functions of hid_control_client.c share: the tables of options, the
report with its stores, and the loop over the tokens of a line. -/
namespace Libsme.Hid
open CString (strtok)
open Semantics.Rfc4648 (ascii)

abbrev Token := List UInt8

/-- An entry of a table; the end of the list is the entry whose `opt` is NULL. -/
structure Options where
  opt : List UInt8
  val : UInt8

def search (table : List Options) (tok : Token) : Option UInt8 :=
  (table.find? fun entry => entry.opt = tok).map Options.val

/-- A store to the report, or a line on stderr. -/
inductive Event where
  | store (index : Nat) (value : UInt8)
  | print (text : List UInt8)

/-- The variables of a fill function: `count` is its `key` or its `mvt`. -/
structure Filling where
  report : List UInt8
  count : Nat
  hold : Int

def Filling.store (state : Filling) (index : Nat) (value : UInt8) : Traced Event Filling := do
  Traced.emit (.store index value)
  pure { state with report := state.report.set index value }

def unknown (state : Filling) (tok : Token) : Traced Event Filling := do
  Traced.emit (.print (ascii "unknown option: " ++ tok ++ ascii "\n"))
  pure state

def quit : Token := ascii "--quit"
def holdOption : Token := ascii "--hold"

/-- The loop over the tokens; `size` is the length of the report, returned at the end. -/
def fill (size : Int) (turn : Filling → Token → Traced Event Filling) :
    Filling → List Token → Traced Event (Int × Filling)
  | state, [] => pure (size,state)
  | state, tok::rest =>
    if tok = quit then pure (-1,state)
    else do
      let next ← turn state tok
      fill size turn next rest

def reportTokens (buf : List UInt8) : List Token := strtok 32 buf

theorem exists_line {tokens : List Token} (clean : ∀ tok ∈ tokens, tok ≠ [] ∧ 32 ∉ tok ∧ 0 ∉ tok) :
    ∃ buf, reportTokens buf = tokens :=
  ⟨_,CString.strtok_intercalate (by decide) clean []⟩

@[simp] theorem store_value (state : Filling) (index : Nat) (value : UInt8) :
    (state.store index value).value = { state with report := state.report.set index value } := rfl

@[simp] theorem unknown_value (state : Filling) (tok : Token) : (unknown state tok).value = state := rfl

theorem getD_set_ne {place other : Nat} (apart : place ≠ other) (report : List UInt8) (value : UInt8) :
    (report.set place value).getD other 0 = report.getD other 0 := by
  rw [List.getD_eq_getElem?_getD,List.getElem?_set_ne apart,← List.getD_eq_getElem?_getD]

theorem search_append (front rest : List Options) (tok : Token) :
    search (front ++ rest) tok = (search front tok).or (search rest tok) := by
  simp only [search,List.find?_append]
  cases front.find? fun entry => entry.opt = tok <;> rfl

theorem search_some {table : List Options} {tok : Token} {val : UInt8} (found : search table tok = some val) :
    ∃ entry ∈ table, entry.opt = tok ∧ entry.val = val := by
  obtain ⟨entry,here,same⟩ := Option.map_eq_some_iff.mp found
  exact ⟨entry,List.mem_of_find?_eq_some here,by simpa using List.find?_some here,same⟩

theorem masks_concat (table : List Options) (tokens : List Token) (tok : Token) :
    ((tokens ++ [tok]).filterMap (search table)).foldl (· ||| ·) 0 =
      (tokens.filterMap (search table)).foldl (· ||| ·) 0 ||| (search table tok).getD 0 := by
  rw [List.filterMap_append,List.foldl_append]
  cases found : search table tok <;> simp [found]

section Run
variable {size : Int} {turn : Filling → Token → Traced Event Filling}

def handled (tokens : List Token) : List Token := tokens.takeWhile (· ≠ quit)

def reached (turn : Filling → Token → Traced Event Filling) (state : Filling) (tokens : List Token) : Filling :=
  tokens.foldl (fun state tok => (turn state tok).value) state

theorem reached_concat (state : Filling) (tokens : List Token) (tok : Token) :
    reached turn state (tokens ++ [tok]) = (turn (reached turn state tokens) tok).value := by
  simp [reached]

theorem handled_cons {tok : Token} (other : tok ≠ quit) (rest : List Token) :
    handled (tok::rest) = tok::handled rest := by
  simp [handled,other]

theorem handled_of_not_mem {tokens : List Token} (absent : quit ∉ tokens) : handled tokens = tokens :=
  List.takeWhile_eq_self_iff.mpr fun tok member => by
    simpa using fun same : tok = quit => absent (same ▸ member)

theorem fill_value (state : Filling) (tokens : List Token) :
    (fill size turn state tokens).value =
      (if quit ∈ tokens then -1 else size,reached turn state (handled tokens)) := by
  induction tokens generalizing state with
  | nil => rfl
  | cons tok rest ih =>
    by_cases stops : tok = quit
    · simp [fill,stops,handled,reached]
    · have others : quit ∈ tok::rest ↔ quit ∈ rest := by simp [Ne.symm stops]
      rw [fill,if_neg stops,Traced.bind_value,ih,handled_cons stops]
      simp only [others,reached,List.foldl_cons]

theorem fill_report {state : Filling} {tokens : List Token} (stays : quit ∉ tokens) :
    (fill size turn state tokens).value = (size,reached turn state tokens) := by
  rw [fill_value,if_neg stays,handled_of_not_mem stays]

theorem fill_always {Q : Event → Prop} (Invariant : Filling → Prop)
    (kept : ∀ state tok, Invariant state → Traced.Always Q (turn state tok) ∧ Invariant (turn state tok).value)
    {state : Filling} (initial : Invariant state) (tokens : List Token) :
    Traced.Always Q (fill size turn state tokens) := by
  induction tokens generalizing state with
  | nil => exact Traced.always_pure Q _
  | cons tok rest ih =>
    obtain ⟨logged,later⟩ := kept state tok initial
    by_cases stops : tok = quit
    · simp [fill,stops]
    · rw [fill,if_neg stops,Traced.always_bind]
      exact ⟨logged,ih later⟩

end Run
end Libsme.Hid
