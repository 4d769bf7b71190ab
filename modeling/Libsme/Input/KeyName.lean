import Libsme.Library.Traced
import Libsme.Semantics.Rfc4648

/-! show_key_name over the table of keys.h. The loop looks for a NULL name; the table ends
with an empty one. -/
namespace Libsme.Input
open Semantics.Rfc4648 (ascii)

/-- What show_key_name reads of an entry; a NULL name is `none`. -/
structure MEKeyData where
  name : Option (List UInt8)
  keycode : Int

private def key (name : String) (keycode : Int) : MEKeyData := ⟨some (ascii name),keycode⟩

/-- The table of keys.h before its end entry. -/
def ubuntuKey : List MEKeyData :=
  [key "ESC" 4,key "F1" 59,key "F2" 60,key "F3" 61,key "F4" 62,key "F5" 63,key "F6" 64,key "F7" 65,
    key "F8" 66,key "F9" 67,key "F10" 68,key "F11" 87,key "F12" 88,key "`" 41,key "1" 2,key "2" 3,key "3" 4,
    key "4" 5,key "5" 6,key "6" 7,key "7" 8,key "8" 9,key "9" 10,key "0" 11,key "-" 12,key "=" 13,
    key "DEL" 14,key "TAB" 15,key "q" 16,key "w" 17,key "e" 18,key "r" 19,key "t" 20,key "y" 21,key "u" 22,
    key "i" 23,key "o" 24,key "p" 25,key "[" 26,key "]" 27,key "\\" 43,key "CL" 28,key "a" 30,key "s" 31,
    key "d" 32,key "f" 33,key "g" 34,key "h" 35,key "j" 36,key "k" 37,key "l" 38,key ";" 39,key "'" 40,
    key "CR" 28,key "SHL" 42,key "x" 45,key "c" 46,key "v" 47,key "b" 48,key "n" 49,key "m" 50,key "," 51,
    key "." 52,key "/" 53,key "SHR" 54,key "CTRL" 29,key "WINL" 125,key "ALTL" 56,key "SP" 57,key "ALTR" 100,
    key "PAST" 126,key "CTRR" 97,key "UP" 103,key "LEFT" 105,key "DOWN" 108,key "RIHT" 106,key "prts" 99]

/-- {"",0,0} -/
def endEntry : MEKeyData := ⟨some [],0⟩

/-- The table in memory: the keys, the end entry and what lies behind. -/
structure Table where
  keys : List MEKeyData
  beyond : Nat → MEKeyData

def Table.entry (table : Table) (i : Nat) : MEKeyData := (table.keys ++ [endEntry]).getD i (table.beyond i)

/-- The loop from index `i`, with the entries it reads as events. -/
def showKeyLoop (table : Table) (code : UInt16) : Nat → Nat → Traced Nat (Option (Option (List UInt8)))
  | 0, _ => pure none
  | fuel+1, i => do
    Traced.emit i
    match (table.entry i).name with
    | none => pure (some none)
    | some name =>
      if (code.toNat : Int) = (table.entry i).keycode then pure (some (some name))
      else showKeyLoop table code fuel (i+1)

def showKeyName (table : Table) (code : UInt16) (fuel : Nat) : Traced Nat (Option (Option (List UInt8))) :=
  showKeyLoop table code fuel 0

def lookup (keys : List MEKeyData) (code : UInt16) : Option (List UInt8) :=
  (keys.find? fun entry => entry.keycode = (code.toNat : Int)).bind MEKeyData.name

structure EndsInside (table : Table) (code : UInt16) : Prop where
  terminates : ∃ fuel result, (showKeyName table code fuel).value = some result
  inside : ∀ fuel, ∀ i ∈ (showKeyName table code fuel).log, i ≤ table.keys.length
  result : ∀ fuel result, (showKeyName table code fuel).value = some result → result = lookup table.keys code

def stopping (keys : List MEKeyData) (code : UInt16) : Option MEKeyData :=
  keys.find? fun entry => entry.name = none ∨ entry.keycode = (code.toNat : Int)

/-- An entry before the end one has the code or a NULL name, and where the first of these has
a NULL name no entry with a name has the code first. -/
def StopsInside (table : Table) (code : UInt16) : Prop :=
  ∃ entry, stopping table.keys code = some entry ∧ (entry.name = none → lookup table.keys code = none)

section Loop
variable {table : Table} {code : UInt16} {fuel i : Nat}

theorem showKeyLoop_stops (stops : (table.entry i).name = none ∨ (table.entry i).keycode = code.toNat) :
    showKeyLoop table code (fuel+1) i = ⟨some (table.entry i).name,[i]⟩ := by
  rw [showKeyLoop]
  cases named : (table.entry i).name with
  | none => rfl
  | some name =>
    have same : (table.entry i).keycode = code.toNat := stops.resolve_left (by simp [named])
    simp only [if_pos same.symm]
    rfl

theorem showKeyLoop_next (goes : ¬((table.entry i).name = none ∨ (table.entry i).keycode = code.toNat)) :
    showKeyLoop table code (fuel+1) i =
      ⟨(showKeyLoop table code fuel (i+1)).value,i::(showKeyLoop table code fuel (i+1)).log⟩ := by
  obtain ⟨named,other⟩ := not_or.mp goes
  obtain ⟨name,some_name⟩ := Option.ne_none_iff_exists'.mp named
  rw [showKeyLoop,some_name]
  simp only [if_neg (Ne.symm other)]
  rfl

theorem entry_front {front rest : List MEKeyData} {entry : MEKeyData} (split : table.keys = front ++ entry::rest) :
    table.entry front.length = entry := by
  rw [Table.entry,split]
  simp

theorem entry_end : table.entry table.keys.length = endEntry := by
  simp [Table.entry]

/-- Where a key before the end stops the loop, its name is the result. -/
theorem showKeyLoop_found {front rest : List MEKeyData} {entry : MEKeyData} (split : table.keys = front ++ rest)
    (found : stopping rest code = some entry) :
    (∃ fuel, (showKeyLoop table code fuel front.length).value = some entry.name) ∧
      ∀ fuel, (∀ i ∈ (showKeyLoop table code fuel front.length).log, i ≤ table.keys.length) ∧
        ∀ result, (showKeyLoop table code fuel front.length).value = some result → result = entry.name := by
  induction rest generalizing front with
  | nil => exact absurd found (by simp [stopping])
  | cons head rest ih =>
    have here := entry_front split
    have inside : front.length ≤ table.keys.length := by
      rw [split,List.length_append]
      omega
    by_cases stops : head.name = none ∨ head.keycode = code.toNat
    · have same : head = entry := by simpa [stopping,List.find?_cons,stops] using found
      rw [← same]
      rw [← here] at stops ⊢
      refine ⟨⟨1,by rw [showKeyLoop_stops stops]⟩,?_⟩
      intro fuel
      cases fuel with
      | zero => simp [showKeyLoop]
      | succ fuel =>
        rw [showKeyLoop_stops stops]
        exact ⟨by simpa using inside,fun result same => (Option.some.inj same).symm⟩
    · have later : stopping rest code = some entry := by simpa [stopping,List.find?_cons,stops] using found
      have goes : ¬((table.entry front.length).name = none ∨
          (table.entry front.length).keycode = code.toNat) := by rwa [here]
      have tail := ih (split.trans (List.append_cons front head rest)) later
      rw [List.length_append,List.length_singleton] at tail
      obtain ⟨⟨enough,ends⟩,always⟩ := tail
      refine ⟨⟨enough+1,by rw [showKeyLoop_next goes,ends]⟩,?_⟩
      intro fuel
      cases fuel with
      | zero => simp [showKeyLoop]
      | succ fuel =>
        rw [showKeyLoop_next goes]
        obtain ⟨bounded,result⟩ := always fuel
        refine ⟨?_,result⟩
        intro i member
        rcases List.mem_cons.mp member with rfl | later
        · exact inside
        · exact bounded i later

theorem showKeyLoop_passes {front rest : List MEKeyData} (split : table.keys = front ++ rest)
    (passes : stopping rest code = none) (fuel : Nat) :
    (showKeyLoop table code (fuel+rest.length) front.length).value = (showKeyLoop table code fuel table.keys.length).value ∧
      (showKeyLoop table code fuel table.keys.length).log <:+
        (showKeyLoop table code (fuel+rest.length) front.length).log := by
  induction rest generalizing front with
  | nil =>
    rw [split,List.append_nil]
    exact ⟨rfl,List.suffix_rfl⟩
  | cons head rest ih =>
    have here := entry_front split
    obtain ⟨going,later⟩ : ¬(head.name = none ∨ head.keycode = code.toNat) ∧ stopping rest code = none := by
      by_cases stops : head.name = none ∨ head.keycode = code.toNat
      · simp [stopping,stops] at passes
      · exact ⟨stops,by simpa [stopping,List.find?_cons,stops] using passes⟩
    have tail := ih (split.trans (List.append_cons front head rest)) later
    rw [List.length_append,List.length_singleton] at tail
    rw [← here] at going
    rw [List.length_cons,← Nat.add_assoc,showKeyLoop_next going]
    exact ⟨tail.1,tail.2.trans (List.suffix_cons _ _)⟩

end Loop

theorem lookup_of_stopping {keys : List MEKeyData} {code : UInt16} {entry : MEKeyData}
    (found : stopping keys code = some entry) (named : entry.name ≠ none) : lookup keys code = entry.name := by
  obtain ⟨stops,front,rest,split,earlier⟩ := List.find?_eq_some_iff_append.mp found
  have same : entry.keycode = code.toNat := (of_decide_eq_true stops).resolve_left named
  have first : keys.find? (fun entry => entry.keycode = (code.toNat : Int)) = some entry := by
    apply List.find?_eq_some_iff_append.mpr
    refine ⟨by simpa using same,front,rest,split,?_⟩
    intro other member
    have passed := earlier other member
    simp only [Bool.not_eq_true',decide_eq_false_iff_not,not_or] at passed
    simpa using passed.2
  rw [lookup,first,Option.bind_some]

theorem lookup_of_passing {keys : List MEKeyData} {code : UInt16} (passes : stopping keys code = none) :
    lookup keys code = none := by
  have absent : keys.find? (fun entry => entry.keycode = (code.toNat : Int)) = none := by
    apply List.find?_eq_none.mpr
    intro entry member same
    have passed := List.find?_eq_none.mp passes entry member
    simp only [decide_eq_true_eq,not_or] at passed same
    exact passed.2 same
  rw [lookup,absent,Option.bind_none]

theorem not_endsInside_of_passing {table : Table} {code : UInt16} (passes : stopping table.keys code = none) :
    ¬EndsInside table code := by
  intro ends
  have run := @showKeyLoop_passes table code [] table.keys rfl passes 2
  have log := ends.inside (2+table.keys.length)
  have result := ends.result (2+table.keys.length)
  rw [lookup_of_passing passes] at result
  by_cases zero : (table.entry table.keys.length).name = none ∨ (table.entry table.keys.length).keycode = code.toNat
  · -- the end entry itself has the code
    rw [showKeyLoop_stops zero,entry_end] at run
    exact Option.some_ne_none _ (result _ run.1)
  · rw [showKeyLoop_next zero] at run
    have next : table.keys.length+1 ∈ (showKeyLoop table code 1 (table.keys.length+1)).log := by simp [showKeyLoop]
    have bound := log _ (run.2.subset (List.mem_cons_of_mem _ next))
    omega

/-- show_key_name ends inside the table for exactly the codes that a key before the end has. -/
theorem showKeyName_endsInside_iff (table : Table) (code : UInt16) : EndsInside table code ↔ StopsInside table code := by
  cases found : stopping table.keys code with
  | none =>
    refine iff_of_false (not_endsInside_of_passing found) ?_
    rintro ⟨entry,some_entry,_⟩
    rw [found] at some_entry
    exact Option.some_ne_none _ some_entry.symm
  | some entry =>
    obtain ⟨⟨fuel,ends⟩,always⟩ := @showKeyLoop_found table code [] table.keys entry rfl found
    constructor
    · intro right
      refine ⟨entry,found,fun unnamed => ?_⟩
      rw [← right.result fuel entry.name ends,unnamed]
    · rintro ⟨other,same,unnamed⟩
      obtain rfl := Option.some.inj (found.symm.trans same)
      refine ⟨⟨fuel,_,ends⟩,fun fuel => (always fuel).1,?_⟩
      intro fuel result value
      rw [(always fuel).2 result value]
      by_cases named : entry.name = none
      · rw [named,unnamed named]
      · exact (lookup_of_stopping found named).symm

/-- The code of the key z is not in the table. -/
theorem showKeyName_absent : ¬∀ (table : Table) (code : UInt16), EndsInside table code := fun always =>
  not_endsInside_of_passing (by decide +kernel) (always ⟨ubuntuKey,fun _ => endEntry⟩ 44)

end Libsme.Input
