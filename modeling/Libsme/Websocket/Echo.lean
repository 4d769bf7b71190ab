import Libsme.Websocket.Session

/-! A text message and its echo by main.c. analyData returns a block without its length,
and whoever takes it for a string reads on into what the heap holds behind it. -/
namespace Libsme.Websocket
open Semantics
open Memory (cstr)

/-- A masked final text frame without NULs that one read receives whole. -/
structure TextTurn where
  frame : Rfc6455.Frame
  text : frame.opcode = 1
  clean : 0 ∉ frame.payload
  short : frame.payload.length < 65535
  turn : MainTurn
  whole : frame.bytes <+: turn.received.bytes

namespace TextTurn

def block (text : TextTurn) : Option (List UInt8) :=
  (analyData text.turn.buf text.turn.received.n).value

/-- The block is a string equal to the payload, and its terminator lies inside. -/
def Terminated (text : TextTurn) : Prop :=
  ∃ block, text.block = some block ∧ 0 ∈ block ∧ cstr block = text.frame.payload

def written : List Event → List (List UInt8) :=
  List.filterMap fun event => match event with
    | .write block => some block
    | _ => none

def packed (payload : List UInt8) : List UInt8 := (packData (payload ++ [0])).1.getD []

def Echoes (connfd : Int) (text : TextTurn) : Prop :=
  written (mainLoop connfd true text.turn).log = [packed text.frame.payload]

theorem block_eq (text : TextTurn) : text.block = some text.frame.payload :=
  (analyData_fill (by decide) text.whole _).2

theorem packData_some {message : List UInt8} (short : (cstr message).length < 65535) :
    ∃ data, packData message = (some data,data.length) ∧ 0 < data.length ∧
      data.length = if (cstr message).length < 126 then (cstr message).length+2 else (cstr message).length+4 := by
  unfold packData
  by_cases small : (cstr message).length < 126
  · refine ⟨0x81::UInt8.ofNat (cstr message).length::cstr message,?_,Nat.zero_lt_succ _,?_⟩
    · simp only [small,if_true,List.length_cons]
    · simp only [small,if_true,List.length_cons]
  · refine ⟨0x81::126::UInt8.ofNat ((cstr message).length >>> 8 &&& 0xFF)::
      UInt8.ofNat ((cstr message).length &&& 0xFF)::cstr message,?_,Nat.zero_lt_succ _,?_⟩
    · simp only [small,short,if_true,if_false,List.length_cons]
    · simp only [small,if_false,List.length_cons]

theorem packData_congr {first second : List UInt8} (same : cstr first = cstr second) :
    packData first = packData second := by
  rw [packData,same]
  rfl

theorem written_sendFrame (message : List UInt8) : written (sendFrame message).log =
    if (cstr message).length < 65535 then [packed (cstr message)] else [] := by
  by_cases short : (cstr message).length < 65535
  · obtain ⟨data,frame,positive,-⟩ := packData_some short
    have text : cstr (cstr message ++ [0]) = cstr message :=
      Memory.text_terminated (Memory.terminator_not_mem_text 0 message) []
    have same : packed (cstr message) = data := by
      rw [packed,packData_congr text,frame]
      rfl
    rw [if_pos short,same,sendFrame,frame]
    simp only [Nat.not_le.mpr positive,if_false,List.take_length]
    rfl
  · rw [if_neg short,sendFrame,packData_long short]
    rfl

theorem packed_length {payload : List UInt8} (clean : 0 ∉ payload) (short : payload.length < 65535) :
    (packed payload).length = if payload.length < 126 then payload.length+2 else payload.length+4 := by
  have text : cstr (payload ++ [0]) = payload := Memory.text_terminated clean []
  obtain ⟨data,frame,-,length⟩ := packData_some (text.symm ▸ short : (cstr (payload ++ [0])).length < 65535)
  rw [packed,frame]
  rwa [text] at length

/-- A message longer by what the heap holds makes another frame, or none. -/
theorem written_sendFrame_iff {payload heap : List UInt8} (clean : 0 ∉ payload) (short : payload.length < 65535) :
    written (sendFrame (payload ++ heap)).log = [packed payload] ↔ heap = [] ∨ heap.head? = some 0 := by
  have terminated : cstr (payload ++ heap) = payload ↔ heap = [] ∨ heap.head? = some 0 :=
    Memory.text_append_eq_iff clean heap
  rw [written_sendFrame,← terminated]
  constructor
  · intro same
    have split : cstr (payload ++ heap) = payload ++ cstr heap := Memory.text_append clean heap
    by_cases fits : (cstr (payload ++ heap)).length < 65535
    · rw [if_pos fits] at same
      have lengths := congrArg List.length (List.singleton_inj.mp same)
      have whole : 0 ∉ cstr (payload ++ heap) := Memory.terminator_not_mem_text 0 _
      rw [packed_length whole fits,packed_length clean short,split,
        List.length_append] at lengths
      have nothing : (cstr heap).length = 0 := by
        split at lengths <;> split at lengths <;> omega
      rw [List.length_eq_zero_iff.mp nothing,List.append_nil] at split
      exact split
    · rw [if_neg fits] at same
      exact nomatch same
  · intro same
    have fits : (cstr (payload ++ heap)).length < 65535 := by
      rw [same]
      exact short
    rw [if_pos fits,same]

theorem echoes_iff (connfd : Int) (text : TextTurn) : text.Echoes connfd ↔
    connfd ≠ 0 ∧ text.turn.garbage = true ∧ (text.turn.heap = [] ∨ text.turn.heap.head? = some 0) := by
  have data : (analyData text.turn.buf text.turn.received.n).value = some text.frame.payload := text.block_eq
  rw [Echoes,mainLoop_log,data,response_log]
  by_cases returns : connfd = 0 ∨ text.turn.garbage = false
  · rw [if_pos returns]
    refine ⟨fun same => (List.cons_ne_nil _ _ same.symm).elim,?_⟩
    rintro ⟨open_,kept,-⟩
    rcases returns with zero | cleared
    · exact absurd zero open_
    · rw [kept] at cleared
      exact nomatch cleared
  · obtain ⟨open_,kept⟩ := not_or.mp returns
    rw [if_neg returns]
    have sent := @written_sendFrame_iff _ text.turn.heap text.clean text.short
    exact sent.trans ⟨fun ends => ⟨open_,Bool.eq_true_of_not_eq_false kept,ends⟩,fun all => all.2.2⟩

/-- No block is a terminated string; the frame goes out all the same where the test of
response passes and the heap behind the block starts with a NUL. -/
theorem echo_unterminated (text : TextTurn) : ¬text.Terminated ∧ ∀ connfd, (text.Echoes connfd ↔
    connfd ≠ 0 ∧ text.turn.garbage = true ∧ (text.turn.heap = [] ∨ text.turn.heap.head? = some 0)) := by
  refine ⟨?_,fun connfd => text.echoes_iff connfd⟩
  rintro ⟨block,same,member,-⟩
  rw [text.block_eq] at same
  exact text.clean (Option.some.inj same ▸ member)

end TextTurn

theorem firstFrame_fits : firstFrame.bytes.length ≤ requestLenMaxC := by decide +kernel

theorem firstFrame_clean : 0 ∉ firstFrame.payload := by decide +kernel

theorem firstFrame_short : firstFrame.payload.length < 65535 := by decide +kernel

/-- "one", with an 'A' behind the block. -/
def overlongTurn : TextTurn where
  frame := firstFrame
  text := rfl
  clean := firstFrame_clean
  short := firstFrame_short
  turn := ⟨receive firstFrame.bytes firstFrame_fits,true,[0x41]⟩
  whole := List.prefix_rfl

theorem echo_overlong : ¬∀ text : TextTurn, text.Terminated ∧ ∀ connfd, connfd ≠ 0 → text.Echoes connfd := by
  intro always
  have echoes := (always overlongTurn).2 4 (by decide)
  obtain ⟨-,-,ends⟩ := (overlongTurn.echoes_iff 4).mp echoes
  rcases ends with nothing | terminated
  · exact nomatch nothing
  · exact absurd terminated (by decide)

end Libsme.Websocket
