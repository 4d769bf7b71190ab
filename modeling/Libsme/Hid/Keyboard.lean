import Libsme.Hid.Report

/-! keyboard_fill_report: modifiers in byte 0, up to six keys in bytes 2 to 7. -/
namespace Libsme.Hid
open Semantics.Rfc4648 (ascii)

def kmod : List Options :=
  [⟨ascii "--left-ctrl",0x01⟩,⟨ascii "--right-ctrl",0x10⟩,⟨ascii "--left-shift",0x02⟩,⟨ascii "--right-shift",0x20⟩,
    ⟨ascii "--left-alt",0x04⟩,⟨ascii "--right-alt",0x40⟩,⟨ascii "--left-meta",0x08⟩,⟨ascii "--right-meta",0x80⟩]

def kval : List Options :=
  [⟨ascii "--return",0x28⟩,⟨ascii "--esc",0x29⟩,⟨ascii "--bckspc",0x2a⟩,⟨ascii "--tab",0x2b⟩,
    ⟨ascii "--spacebar",0x2c⟩,⟨ascii "--caps-lock",0x39⟩,⟨ascii "--f1",0x3a⟩,⟨ascii "--f2",0x3b⟩,⟨ascii "--f3",0x3c⟩,
    ⟨ascii "--f4",0x3d⟩,⟨ascii "--f5",0x3e⟩,⟨ascii "--f6",0x3f⟩,⟨ascii "--f7",0x40⟩,⟨ascii "--f8",0x41⟩,
    ⟨ascii "--f9",0x42⟩,⟨ascii "--f10",0x43⟩,⟨ascii "--f11",0x44⟩,⟨ascii "--f12",0x45⟩,⟨ascii "--insert",0x49⟩,
    ⟨ascii "--home",0x4a⟩,⟨ascii "--pageup",0x4b⟩,⟨ascii "--del",0x4c⟩,⟨ascii "--end",0x4d⟩,⟨ascii "--pagedown",0x4e⟩,
    ⟨ascii "--right",0x4f⟩,⟨ascii "--left",0x50⟩,⟨ascii "--down",0x51⟩,⟨ascii "--kp-enter",0x58⟩,⟨ascii "--up",0x52⟩,
    ⟨ascii "--num-lock",0x53⟩]

def islower (c : UInt8) : Bool := 97 ≤ c && c ≤ 122

def keyboardTurn (state : Filling) (tok : Token) : Traced Event Filling :=
  if tok = holdOption then pure { state with hold := 1 }
  else
    match (if state.count < 6 then search kval tok else none) with
    | some val => do
      let next ← state.store (2+state.count) val
      pure { next with count := state.count+1 }
    | none =>
      if state.count < 6 ∧ islower (tok.getD 0 0) then do
        let next ← state.store (2+state.count) (tok.getD 0 0 - (97-0x04))
        pure { next with count := state.count+1 }
      else
        match search kmod tok with
        | some val => state.store 0 (state.report.getD 0 0 ||| val)
        | none => if state.count < 6 then unknown state tok else pure state

def keyboardFillReport (report buf : List UInt8) (hold : Int) : Traced Event (Int × Filling) :=
  fill 8 keyboardTurn ⟨report,0,hold⟩ (reportTokens buf)

def keyCode (tok : Token) : Option UInt8 :=
  (search kval tok).or (if islower (tok.getD 0 0) then some (tok.getD 0 0 - (97-0x04)) else none)

def modifiers (tokens : List Token) : UInt8 := (tokens.filterMap (search kmod)).foldl (· ||| ·) 0

def keys (tokens : List Token) : List UInt8 := (tokens.filterMap keyCode).take 6

def layout (mask : UInt8) (codes : List UInt8) : List UInt8 :=
  mask::0::(codes ++ List.replicate (6-codes.length) 0)

structure Shape (mask : UInt8) (codes : List UInt8) (state : Filling) : Prop where
  fits : codes.length ≤ 6
  count : state.count = codes.length
  report : state.report = layout mask codes

private theorem modifier_named : ∀ entry ∈ kmod, keyCode entry.opt = none ∧ entry.opt ≠ holdOption := by
  decide +kernel

private theorem holdOption_plain : keyCode holdOption = none ∧ search kmod holdOption = none := by
  decide +kernel

private theorem keyCode_of_modifier {tok : Token} {val : UInt8} (found : search kmod tok = some val) :
    keyCode tok = none := by
  obtain ⟨entry,member,rfl,_⟩ := search_some found
  exact (modifier_named entry member).1

theorem layout_key {mask code : UInt8} {codes : List UInt8} (room : codes.length < 6) :
    (layout mask codes).set (2+codes.length) code = layout mask (codes ++ [code]) := by
  obtain ⟨spare,size⟩ : ∃ spare, 6-codes.length = spare+1 := ⟨5-codes.length,by omega⟩
  have less : 6-(codes ++ [code]).length = spare := by
    rw [List.length_append,List.length_singleton]
    omega
  have index : 2+codes.length = codes.length+1+1 := by omega
  rw [layout,layout,size,less,index,List.set_cons_succ,List.set_cons_succ,
    List.set_append_right _ _ (Nat.le_refl _),Nat.sub_self,List.replicate_succ,List.set_cons_zero,List.append_assoc]
  rfl

private theorem turn_key {state : Filling} {tok : Token} {code : UInt8} (found : keyCode tok = some code)
    (room : state.count < 6) : keyboardTurn state tok =
      ⟨⟨state.report.set (2+state.count) code,state.count+1,state.hold⟩,[.store (2+state.count) code]⟩ := by
  have other : tok ≠ holdOption := by
    rintro rfl
    exact Option.some_ne_none _ (found.symm.trans holdOption_plain.1)
  cases named : search kval tok with
  | some val =>
    have same : val = code := by simpa [keyCode,named] using found
    subst same
    simp only [keyboardTurn,if_neg other,if_pos room,named]
    rfl
  | none =>
    obtain ⟨lower,same⟩ : islower (tok.getD 0 0) = true ∧ tok.getD 0 0 - (97-0x04) = code := by
      simpa [keyCode,named] using found
    subst same
    simp only [keyboardTurn,if_neg other,if_pos room,named,if_pos (And.intro room lower)]
    rfl

/-- A key token after the sixth key and an unknown token store nothing. -/
private theorem turn_idle {state : Filling} {tok : Token} (other : tok ≠ holdOption)
    (plain : search kmod tok = none) (idle : state.count < 6 → keyCode tok = none) :
    (keyboardTurn state tok).value = state ∧ ∀ event ∈ (keyboardTurn state tok).log, ∃ text, event = .print text := by
  by_cases room : state.count < 6
  · obtain ⟨named,letter⟩ : search kval tok = none ∧ ¬islower (tok.getD 0 0) = true := by
      simpa [keyCode,Option.or_eq_none_iff] using idle room
    have plainly : keyboardTurn state tok = unknown state tok := by
      simp [keyboardTurn,other,room,named,letter,plain,-List.getD_eq_getElem?_getD]
    rw [plainly]
    exact ⟨rfl,fun event member => ⟨_,List.mem_singleton.mp member⟩⟩
  · have nothing : keyboardTurn state tok = pure state := by
      simp [keyboardTurn,other,room,plain]
    rw [nothing]
    exact ⟨rfl,fun event member => absurd member List.not_mem_nil⟩

private theorem turn_modifier {state : Filling} {tok : Token} {val : UInt8} (found : search kmod tok = some val) :
    keyboardTurn state tok = state.store 0 (state.report.getD 0 0 ||| val) := by
  have other : tok ≠ holdOption := by
    rintro rfl
    exact Option.some_ne_none _ (found.symm.trans holdOption_plain.2)
  obtain ⟨named,letter⟩ : search kval tok = none ∧ ¬islower (tok.getD 0 0) = true := by
    simpa [keyCode,Option.or_eq_none_iff] using keyCode_of_modifier found
  simp [keyboardTurn,other,named,letter,found,-List.getD_eq_getElem?_getD]

def Event.Inside : Event → Prop
  | .store index _ => index < 8
  | .print _ => True

private theorem hold_turn (state : Filling) : keyboardTurn state holdOption = pure { state with hold := 1 } := by
  rw [keyboardTurn,if_pos rfl]

theorem modifiers_concat (tokens : List Token) (tok : Token) :
    modifiers (tokens ++ [tok]) = modifiers tokens ||| (search kmod tok).getD 0 :=
  masks_concat kmod tokens tok

theorem keys_concat (tokens : List Token) (tok : Token) :
    keys (tokens ++ [tok]) = (keys tokens ++ (keyCode tok).toList).take 6 := by
  rw [keys,List.filterMap_append,keys,List.take_append,List.take_append,List.take_take]
  cases found : keyCode tok with
  | none => simp [found]
  | some code =>
    simp only [found,List.filterMap_cons,List.filterMap_nil,Option.toList_some,List.length_take]
    congr 2
    omega

private theorem turn_shape {mask : UInt8} {codes : List UInt8} {state : Filling} (shape : Shape mask codes state)
    (tok : Token) :
    Traced.Always Event.Inside (keyboardTurn state tok) ∧
      Shape (mask ||| (search kmod tok).getD 0) ((codes ++ (keyCode tok).toList).take 6) (keyboardTurn state tok).value ∧
      (keyboardTurn state tok).value.hold = if tok = holdOption then 1 else state.hold := by
  obtain ⟨fits,count,report⟩ := shape
  by_cases holds : tok = holdOption
  · subst holds
    rw [hold_turn,holdOption_plain.1,holdOption_plain.2,if_pos rfl]
    refine ⟨Traced.always_pure _ _,⟨?_,?_,?_⟩,rfl⟩ <;> simp [List.take_of_length_le fits,fits,count,report]
  · rw [if_neg holds]
    cases modifier : search kmod tok with
    | some val =>
      rw [turn_modifier modifier,keyCode_of_modifier modifier]
      refine ⟨?_,⟨?_,?_,?_⟩,rfl⟩
      · exact (Traced.always_emit _ _).mpr (by decide : 0 < 8)
      · simpa [List.take_of_length_le fits] using fits
      · simpa [List.take_of_length_le fits] using count
      · simp [List.take_of_length_le fits,report,layout]
    | none =>
      by_cases appends : state.count < 6 ∧ keyCode tok ≠ none
      · obtain ⟨room,some_key⟩ := appends
        obtain ⟨code,found⟩ := Option.ne_none_iff_exists'.mp some_key
        rw [turn_key found room,found]
        have small : codes.length < 6 := count ▸ room
        have more : (codes ++ [code]).length ≤ 6 := by
          rw [List.length_append,List.length_singleton]
          omega
        simp only [Option.toList_some,List.take_of_length_le more,Option.getD_none,UInt8.or_zero]
        refine ⟨?_,⟨more,?_,?_⟩,trivial⟩
        · intro event member
          rw [List.mem_singleton.mp member,count]
          change 2+codes.length < 8
          omega
        · rw [count,List.length_append,List.length_singleton]
        · rw [report,count]
          exact layout_key small
      · have idle : state.count < 6 → keyCode tok = none := fun room =>
          by_contra fun some_key => appends ⟨room,some_key⟩
        obtain ⟨same,prints⟩ := turn_idle holds modifier idle
        have still : (codes ++ (keyCode tok).toList).take 6 = codes := by
          rcases Nat.lt_or_ge codes.length 6 with small | full
          · rw [idle (count ▸ small)]
            simpa using fits
          · exact List.take_left' (Nat.le_antisymm fits full)
        rw [same,still]
        refine ⟨?_,⟨fits,count,by simpa using report⟩,rfl⟩
        intro event member
        obtain ⟨text,rfl⟩ := prints event member
        trivial

private theorem run_shape (hold : Int) (tokens : List Token) :
    let state := reached keyboardTurn ⟨List.replicate 8 0,0,hold⟩ tokens
    Shape (modifiers tokens) (keys tokens) state ∧ state.hold = if holdOption ∈ tokens then 1 else hold := by
  induction tokens using List.reverseRecOn with
  | nil => exact ⟨⟨Nat.zero_le _,rfl,rfl⟩,rfl⟩
  | append_singleton tokens tok ih =>
    obtain ⟨shape,held⟩ := ih
    obtain ⟨_,next,holds⟩ := turn_shape shape tok
    rw [reached_concat,modifiers_concat,keys_concat]
    refine ⟨next,?_⟩
    rw [holds,held]
    by_cases here : tok = holdOption
    · simp [here]
    · simp [here,Ne.symm here]

/-- keyboard_fill_report collects the modifiers and the first six keys of a line. -/
theorem keyboardFillReport_collects (buf : List UInt8) (hold : Int) (stays : quit ∉ reportTokens buf) :
    let tokens := reportTokens buf
    let result := keyboardFillReport (List.replicate 8 0) buf hold
    result.value.1 = 8 ∧
      result.value.2.report = modifiers tokens::0::(keys tokens ++ List.replicate (6-(keys tokens).length) 0) ∧
      result.value.2.hold = (if holdOption ∈ tokens then 1 else hold) ∧
      Traced.Always Event.Inside result := by
  obtain ⟨shape,held⟩ := run_shape hold (reportTokens buf)
  have value := @fill_report 8 keyboardTurn ⟨List.replicate 8 0,0,hold⟩ _ stays
  refine ⟨?_,?_,?_,?_⟩
  · rw [keyboardFillReport,value]
  · rw [keyboardFillReport,value]
    exact shape.report
  · rw [keyboardFillReport,value]
    exact held
  · refine fill_always (fun state => ∃ mask codes, Shape mask codes state) ?_ ?_ _
    · rintro state tok ⟨mask,codes,now⟩
      obtain ⟨inside,next,_⟩ := turn_shape now tok
      exact ⟨inside,_,_,next⟩
    · exact ⟨0,[],⟨Nat.zero_le _,rfl,rfl⟩⟩

def keyLine : List UInt8 := ascii "a --left-shift --f1 --hold b --what c d e f --up --right-alt" ++ [0]

theorem keyboardFillReport_keyLine :
    quit ∉ reportTokens keyLine ∧
      (keyboardFillReport (List.replicate 8 0) keyLine 0).value.2.report =
        modifiers (reportTokens keyLine)::0::(keys (reportTokens keyLine) ++
          List.replicate (6-(keys (reportTokens keyLine)).length) 0) := by
  have stays : quit ∉ reportTokens keyLine := by decide +kernel
  exact ⟨stays,(keyboardFillReport_collects keyLine 0 stays).2.1⟩

end Libsme.Hid
