import Libsme.Websocket.Server

/-! Sessions: what the loops of main.c and main.cpp do with the results of `read` on an
established connection. -/
namespace Libsme.Websocket
open Semantics

/-- No message is NULL, and nothing is answered once a read has failed or met the end. -/
structure Robust (log : List Event) : Prop where
  message : Event.packData none ∉ log
  quiet : log.Pairwise fun earlier later =>
    ∀ n message, earlier = .read n → n ≤ 0 → later ≠ .response message

def Clean : Event → Prop
  | .read n => 0 < n
  | .packData message => message ≠ none
  | _ => True

theorem Robust.append_iff {first : List Event} (clean : ∀ event ∈ first, Clean event) (rest : List Event) :
    Robust (first ++ rest) ↔ Robust rest := by
  have positive (n : Int) (member : .read n ∈ first) : 0 < n := clean (.read n) member
  constructor
  · intro robust
    exact ⟨fun member => robust.message (List.mem_append_right first member),
      (List.pairwise_append.mp robust.quiet).2.1⟩
  · intro robust
    refine ⟨?_,List.pairwise_append.mpr ⟨?_,robust.quiet,?_⟩⟩
    · rw [List.mem_append]
      rintro (member | member)
      · exact clean _ member rfl
      · exact robust.message member
    · apply List.pairwise_of_forall_mem_list
      rintro _ member later _ n message rfl failed
      exact absurd (positive n member) (by omega)
    · rintro _ member later _ n message rfl failed
      exact absurd (positive n member) (by omega)

theorem Robust.left {first rest : List Event} (robust : Robust (first ++ rest)) : Robust first :=
  ⟨fun member => robust.message (List.mem_append_left rest member),
    (List.pairwise_append.mp robust.quiet).1⟩

theorem not_robust_of_response {n : Int} (failed : n ≤ 0) {message : Option (List UInt8)} {rest : List Event}
    (member : .response message ∈ rest) : ¬Robust (.read n::rest) := by
  intro robust
  exact List.rel_of_pairwise_cons robust.quiet member n message rfl failed rfl

theorem Robust.nil : Robust [] := ⟨List.not_mem_nil,List.Pairwise.nil⟩

/-- The read has delivered the start of a frame that `analyData` accepts, or `response`
returns before it looks at its message. -/
def MainTurn.Met (connfd : Int) (turn : MainTurn) : Prop :=
  0 < turn.received.n ∧ (¬Rejected turn.buf turn.received.n ∨ connfd = 0 ∨ turn.garbage = false)

private theorem response_clean (connfd : Int) (garbage : Bool) (message : Option (List UInt8))
    (sound : message ≠ none ∨ connfd = 0 ∨ garbage = false) :
    ∀ event ∈ (response connfd garbage message).log, Clean event := by
  rw [response_log,List.forall_mem_cons]
  refine ⟨trivial,?_⟩
  by_cases returns : connfd = 0 ∨ garbage = false
  · rw [if_pos returns]
    exact List.forall_mem_nil _
  · rw [if_neg returns,List.forall_mem_cons]
    cases message with
    | none => exact absurd rfl (sound.resolve_right returns)
    | some message => exact ⟨Option.some_ne_none _,sendFrame_always Clean (fun _ => trivial) message⟩

theorem mainLoop_met {connfd : Int} {turn : MainTurn} (met : turn.Met connfd) :
    (mainLoop connfd true turn).value = some true ∧
      ∀ event ∈ (mainLoop connfd true turn).log, Clean event := by
  obtain ⟨positive,sound⟩ := met
  have message : (analyData turn.buf turn.received.n).value.map (· ++ turn.heap) ≠ none ∨
      connfd = 0 ∨ turn.garbage = false := by
    rw [ne_eq,Option.map_eq_none_iff,analyData_null_iff]
    exact sound
  constructor
  · simp only [mainLoop,Traced.bind_value,Bool.true_eq_false,if_false,Traced.pure_value]
    cases delivered : (analyData turn.buf turn.received.n).value with
    | some data => simp
    | none =>
      have returns := message.resolve_left (by simp [delivered])
      simp [response_value_none,returns]
  · rw [mainLoop_log,List.forall_mem_cons,List.forall_mem_cons]
    exact ⟨positive,trivial,response_clean _ _ _ message⟩

theorem mainLoop_not_met {connfd : Int} {turn : MainTurn} (failed : ¬turn.Met connfd) :
    ¬Robust (mainLoop connfd true turn).log := by
  rw [mainLoop_log]
  by_cases positive : 0 < turn.received.n
  · obtain ⟨rejected,alive,live⟩ : Rejected turn.buf turn.received.n ∧ ¬connfd = 0 ∧ ¬turn.garbage = false := by
      simpa only [MainTurn.Met,positive,true_and,not_or,not_not] using failed
    have null := analyData_rejected rejected
    intro robust
    apply robust.message
    rw [null,Option.map_none,response_log,if_neg (not_or.mpr ⟨alive,live⟩)]
    simp
  · apply not_robust_of_response (by omega)
    rw [response_log]
    exact List.mem_cons_of_mem _ List.mem_cons_self

theorem mainLoop_robust_iff (connfd : Int) (turns : List MainTurn) :
    Robust (Traced.loop (mainLoop connfd) true turns) ↔ ∀ turn ∈ turns, turn.Met connfd := by
  induction turns with
  | nil => exact ⟨fun _ => List.forall_mem_nil _,fun _ => Robust.nil⟩
  | cons turn turns ih =>
    rw [List.forall_mem_cons]
    by_cases met : turn.Met connfd
    · obtain ⟨stays,clean⟩ := mainLoop_met met
      rw [Traced.loop_next _ stays,Robust.append_iff clean,ih]
      exact ⟨fun later => ⟨met,later⟩,And.right⟩
    · constructor
      · intro robust
        exact absurd robust.left (mainLoop_not_met met)
      · intro all
        exact absurd all.1 met

private theorem acceptedFunc_clean {connfd : Int} {buf : List UInt8} {turn : AcceptedTurn}
    (positive : 0 < turn.received.n) : ∀ event ∈ (acceptedFunc connfd buf turn).log, Clean event := by
  rw [acceptedFunc_served (by omega),List.forall_mem_cons,List.forall_mem_cons]
  exact ⟨positive,trivial,response_clean _ _ _ (Or.inl (Option.some_ne_none _))⟩

private theorem acceptedFunc_ended {connfd : Int} {buf : List UInt8} {turn : AcceptedTurn}
    (ended : turn.received.n = 0) : ¬Robust (acceptedFunc connfd buf turn).log := by
  rw [acceptedFunc_served (by omega)]
  apply not_robust_of_response (by omega)
  rw [response_log]
  exact List.mem_cons_of_mem _ List.mem_cons_self

theorem acceptedFunc_robust_iff (connfd : Int) (buf : List UInt8) (turns : List AcceptedTurn) :
    Robust (Traced.loop (acceptedFunc connfd) buf turns) ↔
      ∀ turn ∈ turns.takeWhile (0 ≤ ·.received.n), turn.received.n ≠ 0 := by
  induction turns generalizing buf with
  | nil => exact ⟨fun _ => List.forall_mem_nil _,fun _ => Robust.nil⟩
  | cons turn turns ih =>
    by_cases stopped : turn.received.n < 0
    · rw [Traced.loop_left _ (by rw [acceptedFunc_stopped stopped]),acceptedFunc_stopped stopped,
        List.takeWhile_cons_of_neg (by simpa using stopped)]
      exact ⟨fun _ => List.forall_mem_nil _,fun _ => ⟨by simp,by simp⟩⟩
    · have served : (acceptedFunc connfd buf turn).value = some _ :=
        congrArg Traced.value (acceptedFunc_served stopped)
      rw [List.takeWhile_cons_of_pos (by simpa using stopped),List.forall_mem_cons,Traced.loop_next _ served]
      by_cases ended : turn.received.n = 0
      · constructor
        · intro robust
          exact absurd robust.left (acceptedFunc_ended ended)
        · intro all
          exact absurd ended all.1
      · rw [Robust.append_iff (acceptedFunc_clean (by omega)),ih]
        exact ⟨fun later => ⟨ended,later⟩,And.right⟩

/-- Sessions keep to the protocol of a failed read exactly as long as, in main.c, every
read delivers an acceptable frame, and in main.cpp no read meets the end of the stream
before one fails. -/
theorem sessions_robust_iff (connfd : Int) :
    (∀ turns : List MainTurn, Robust (Traced.loop (mainLoop connfd) true turns) ↔
      ∀ turn ∈ turns, turn.Met connfd) ∧
    ∀ (buf : List UInt8) (turns : List AcceptedTurn), Robust (Traced.loop (acceptedFunc connfd) buf turns) ↔
      ∀ turn ∈ turns.takeWhile (0 ≤ ·.received.n), turn.received.n ≠ 0 :=
  ⟨mainLoop_robust_iff connfd,acceptedFunc_robust_iff connfd⟩

def restingHeart : Heart := ⟨0,0,0,List.replicate 100 50,rfl⟩

/-- After the peer's close main.c calls `packData` on NULL and main.cpp sends a message. -/
theorem sessions_not_robust :
    ¬Robust (Traced.loop (mainLoop 4) true [⟨endOfStream _,true,[]⟩]) ∧
      ¬Robust (Traced.loop (acceptedFunc 4) (List.replicate requestLenMaxCpp 0)
        [⟨endOfStream _,true,restingHeart⟩]) := by
  constructor
  · intro robust
    have null : Event.packData none ∈ Traced.loop (mainLoop 4) true [⟨endOfStream _,true,[]⟩] := by
      decide +kernel
    exact robust.message null
  · intro robust
    rw [Traced.loop_next _ (congrArg Traced.value (acceptedFunc_served (by decide)))] at robust
    exact acceptedFunc_ended rfl robust.left

def deliveries (log : List Event) : List (List UInt8) :=
  log.filterMap fun event => match event with
    | .analyData data => data
    | _ => none

private theorem deliveries_response (connfd : Int) (garbage : Bool) (message : Option (List UInt8)) :
    deliveries (response connfd garbage message).log = [] := by
  have silent (message : List UInt8) : deliveries (sendFrame message).log = [] := by
    apply List.filterMap_eq_nil_iff.mpr
    exact sendFrame_always _ (fun _ => rfl) message
  rw [response_log]
  by_cases returns : connfd = 0 ∨ garbage = false
  · simp [returns,deliveries]
  · rw [if_neg returns]
    cases message with
    | none => rfl
    | some message => exact silent message

theorem analyData_fill {limit : Nat} (fits : limit < 2^31) {frame : Rfc6455.Frame} {received : Received limit}
    (starts : frame.bytes <+: received.bytes) (buf : List UInt8) :
    0 < received.n ∧ (analyData (received.fill buf) received.n).value = some frame.payload := by
  obtain ⟨rest,split⟩ := starts
  have shorter := congrArg List.length split
  have count := received.count
  have room := received.fits
  have header : frame.payload.length < frame.bytes.length := by
    simp only [Rfc6455.Frame.bytes,List.length_append,List.length_cons,Rfc6455.masked_length]
    omega
  rw [List.length_append] at shorter
  refine ⟨by omega,?_⟩
  rw [Received.fill,Memory.overwrite_start,← split,List.append_assoc]
  exact analyData_frame frame (by omega) _ _ (by omega)

private theorem mainLoop_whole (connfd : Int) {frame : Rfc6455.Frame} {turn : MainTurn}
    (starts : frame.bytes <+: turn.received.bytes) : (mainLoop connfd true turn).value = some true ∧
      deliveries (mainLoop connfd true turn).log = [frame.payload] := by
  obtain ⟨_,delivered⟩ := analyData_fill (by decide) starts (List.replicate requestLenMaxC 0)
  have data : (analyData turn.buf turn.received.n).value = some frame.payload := delivered
  constructor
  · simp [mainLoop,data]
  · rw [mainLoop_log,data]
    have silent := deliveries_response connfd turn.garbage ((some frame.payload).map (· ++ turn.heap))
    exact congrArg (frame.payload::·) silent

private theorem acceptedFunc_whole (connfd : Int) (buf : List UInt8) {frame : Rfc6455.Frame}
    {turn : AcceptedTurn} (starts : frame.bytes <+: turn.received.bytes) :
    (∃ next, (acceptedFunc connfd buf turn).value = some next) ∧
      deliveries (acceptedFunc connfd buf turn).log = [frame.payload] := by
  obtain ⟨positive,delivered⟩ := analyData_fill (by decide) starts buf
  rw [acceptedFunc_served (by omega),delivered]
  have silent := deliveries_response connfd turn.garbage
    (some (Memory.overwrite (turn.received.fill buf) 0 (turn.heart.print ++ [0])))
  exact ⟨⟨_,rfl⟩,congrArg (frame.payload::·) silent⟩

/-- When every read starts with a whole frame, the payloads delivered are those of these
frames, one for each read and in order; the rest of a read is dropped. -/
theorem deliveries_whole (connfd : Int) (frames : List Rfc6455.Frame) :
    (∀ turns : List MainTurn,
      List.Forall₂ (fun frame turn => frame.bytes <+: turn.received.bytes) frames turns →
      deliveries (Traced.loop (mainLoop connfd) true turns) = frames.map (·.payload)) ∧
    ∀ (buf : List UInt8) (turns : List AcceptedTurn),
      List.Forall₂ (fun frame turn => frame.bytes <+: turn.received.bytes) frames turns →
      deliveries (Traced.loop (acceptedFunc connfd) buf turns) = frames.map (·.payload) := by
  constructor
  · intro turns whole
    apply Traced.loop_filterMap (mainLoop connfd) _ (fun connected => connected = true) _ _ _ rfl whole
    rintro _ frame turn rfl starts
    obtain ⟨stays,delivered⟩ := mainLoop_whole connfd starts
    exact ⟨⟨true,stays,rfl⟩,delivered⟩
  · intro buf turns whole
    apply Traced.loop_filterMap (acceptedFunc connfd) _ (fun _ => True) _ _ _ trivial whole
    intro older frame turn _ starts
    obtain ⟨⟨next,stays⟩,delivered⟩ := acceptedFunc_whole connfd older starts
    exact ⟨⟨next,stays,trivial⟩,delivered⟩

def textFrame (payload : List UInt8) (short : payload.length < 2^63) : Rfc6455.Frame :=
  ⟨Rfc6455.textOpcode,fun _ => 0x5A,payload,short⟩

def firstFrame : Rfc6455.Frame := textFrame (Rfc4648.ascii "one") (by decide +kernel)
def secondFrame : Rfc6455.Frame := textFrame (Rfc4648.ascii "two") (by decide +kernel)

theorem deliveries_apart :
    deliveries (Traced.loop (mainLoop 4) true
      [⟨receive firstFrame.bytes (by decide +kernel),true,[]⟩,⟨receive secondFrame.bytes (by decide +kernel),true,[]⟩]) =
      [firstFrame.payload,secondFrame.payload] ∧
    deliveries (Traced.loop (acceptedFunc 4) (List.replicate requestLenMaxCpp 0)
      [⟨receive firstFrame.bytes (by decide +kernel),true,restingHeart⟩,
        ⟨receive secondFrame.bytes (by decide +kernel),true,restingHeart⟩]) =
      [firstFrame.payload,secondFrame.payload] :=
  ⟨(deliveries_whole 4 [firstFrame,secondFrame]).1 _ (.cons (List.prefix_rfl) (.cons List.prefix_rfl .nil)),
    (deliveries_whole 4 [firstFrame,secondFrame]).2 _ _ (.cons (List.prefix_rfl) (.cons List.prefix_rfl .nil))⟩

theorem deliveries_together :
    ¬(∀ (frames : List Rfc6455.Frame) (turns : List MainTurn),
        (∀ frame ∈ frames, frame.bytes.length ≤ requestLenMaxC) → (∀ turn ∈ turns, 1 ≤ turn.received.n) →
        turns.flatMap (·.received.bytes) = frames.flatMap (·.bytes) →
        deliveries (Traced.loop (mainLoop 4) true turns) = frames.map (·.payload)) ∧
      ¬∀ (frames : List Rfc6455.Frame) (turns : List AcceptedTurn),
        (∀ frame ∈ frames, frame.bytes.length ≤ requestLenMaxCpp) → (∀ turn ∈ turns, 1 ≤ turn.received.n) →
        turns.flatMap (·.received.bytes) = frames.flatMap (·.bytes) →
        deliveries (Traced.loop (acceptedFunc 4) (List.replicate requestLenMaxCpp 0) turns) =
          frames.map (·.payload) := by
  constructor
  · intro delivers
    have both := delivers [firstFrame,secondFrame]
      [⟨receive (firstFrame.bytes ++ secondFrame.bytes) (by decide +kernel),true,[]⟩] (by decide +kernel)
      (by decide +kernel) (by decide +kernel)
    revert both
    decide +kernel
  · intro delivers
    have both := delivers [firstFrame,secondFrame]
      [⟨receive (firstFrame.bytes ++ secondFrame.bytes) (by decide +kernel),true,restingHeart⟩] (by decide +kernel)
      (by decide +kernel) (by decide +kernel)
    revert both
    decide +kernel

end Libsme.Websocket
