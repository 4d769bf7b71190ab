import Libsme.Websocket.Server

/-! The accesses of fetchSecKey and computeAcceptKey: the copy of the key is bounded by the
length of the whole request, which says nothing about the key buffer or the rest of the line. -/
namespace Libsme.Websocket
open Semantics
open Memory (cstr)

/-- The bytes of a region that may be accessed: a request up to its terminator, and the key buffer. -/
def Region.size (buf : List UInt8) : Region → Nat
  | .request => (cstr buf).length+1
  | .key => webSocketKeyLenMax

def Access.Inside (buf : List UInt8) : Access → Prop
  | .load region start size => start+size ≤ region.size buf
  | .store region start size => start+size ≤ region.size buf

abbrev EndsLine (c : UInt8) : Prop := c = 0x0A ∨ c = 0x0D

variable {buf : List UInt8} {keyBegin : Nat}

theorem copyKey_stops {i remaining : Nat} {key : List UInt8} (ends : EndsLine (buf.getD (keyBegin+i) 0)) :
    (copyKey buf keyBegin (remaining+1) i key).log = [.load .request (keyBegin+i) 1] := by
  rw [copyKey]
  simp only [Traced.bind_log,Traced.emit_log,if_pos ends,Traced.pure_log,List.append_nil]

theorem copyKey_continues {i remaining : Nat} {key : List UInt8}
    (inner : ¬EndsLine (buf.getD (keyBegin+i) 0)) :
    (copyKey buf keyBegin (remaining+1) i key).log = .load .request (keyBegin+i) 1::.store .key i 1::
      (copyKey buf keyBegin remaining (i+1) (Memory.overwrite key i [buf.getD (keyBegin+i) 0])).log := by
  rw [copyKey]
  simp only [Traced.bind_log,Traced.emit_log,if_neg inner,List.singleton_append]

theorem copyKey_bounded {length i remaining : Nat} {key : List UInt8}
    (ends : EndsLine (buf.getD (keyBegin+(i+length)) 0)) (turns : length < remaining) :
    ∀ access ∈ (copyKey buf keyBegin remaining i key).log,
      (∃ index, index ≤ i+length ∧ access = .load .request (keyBegin+index) 1) ∨
        ∃ index, index < i+length ∧ access = .store .key index 1 := by
  obtain ⟨remaining,rfl⟩ := Nat.exists_eq_succ_of_ne_zero (Nat.ne_zero_of_lt turns)
  induction length generalizing i remaining key with
  | zero =>
    intro access member
    have here : EndsLine (buf.getD (keyBegin+i) 0) := ends
    rw [copyKey_stops here,List.mem_singleton] at member
    exact Or.inl ⟨i,Nat.le_refl i,member⟩
  | succ length ih =>
    intro access member
    by_cases stops : EndsLine (buf.getD (keyBegin+i) 0)
    · rw [copyKey_stops stops,List.mem_singleton] at member
      exact Or.inl ⟨i,Nat.le_add_right i _,member⟩
    · rw [copyKey_continues stops] at member
      obtain ⟨remaining,rfl⟩ := Nat.exists_eq_succ_of_ne_zero (by omega : remaining ≠ 0)
      rcases List.mem_cons.mp member with load | member
      · exact Or.inl ⟨i,Nat.le_add_right i _,load⟩
      · rcases List.mem_cons.mp member with store | later
        · exact Or.inr ⟨i,by omega,store⟩
        · have shift : i+1+length = i+(length+1) := by omega
          have bounded := ih (shift ▸ ends) remaining (by omega) access later
          rwa [shift] at bounded

theorem copyKey_overruns {length i remaining : Nat} {key : List UInt8}
    (line : ∀ index < length, ¬EndsLine (buf.getD (keyBegin+(i+index)) 0)) (turns : length < remaining) :
    .load .request (keyBegin+(i+length)) 1 ∈ (copyKey buf keyBegin remaining i key).log := by
  obtain ⟨remaining,rfl⟩ := Nat.exists_eq_succ_of_ne_zero (Nat.ne_zero_of_lt turns)
  induction length generalizing i remaining key with
  | zero =>
    by_cases stops : EndsLine (buf.getD (keyBegin+i) 0)
    · rw [copyKey_stops stops]
      exact List.mem_singleton_self _
    · rw [copyKey_continues stops]
      exact List.mem_cons_self
  | succ length ih =>
    obtain ⟨remaining,rfl⟩ := Nat.exists_eq_succ_of_ne_zero (by omega : remaining ≠ 0)
    have shift : ∀ index, i+1+index = i+(index+1) := by omega
    have inner : ¬EndsLine (buf.getD (keyBegin+i) 0) := line 0 (by omega)
    have later : ∀ index < length, ¬EndsLine (buf.getD (keyBegin+(i+1+index)) 0) := by
      intro index bound
      rw [shift]
      exact line (index+1) (by omega)
    rw [copyKey_continues inner,← shift length]
    exact List.mem_cons_of_mem _ (List.mem_cons_of_mem _ (ih later remaining (by omega)))

theorem line_split {tail : List UInt8} (ends : ∃ c ∈ tail, EndsLine c) :
    ∃ key eol rest, tail = key ++ eol::rest ∧ EndsLine eol ∧ ∀ c ∈ key, ¬EndsLine c := by
  induction tail with
  | nil =>
    obtain ⟨c,member,_⟩ := ends
    exact absurd member List.not_mem_nil
  | cons head tail ih =>
    by_cases here : EndsLine head
    · exact ⟨[],head,tail,rfl,here,fun _ member => absurd member List.not_mem_nil⟩
    · obtain ⟨c,member,stops⟩ := ends
      rcases List.mem_cons.mp member with rfl | later
      · exact absurd stops here
      · obtain ⟨key,eol,rest,split,ending,line⟩ := ih ⟨c,later,stops⟩
        refine ⟨head::key,eol,rest,by rw [split]; rfl,ending,?_⟩
        intro d inside
        rcases List.mem_cons.mp inside with rfl | other
        · exact here
        · exact line d other

theorem computeAcceptKey_log_absent (absent : ¬flag <:+: cstr buf) :
    (computeAcceptKey (some buf)).log = [.load .request 0 ((cstr buf).length+1)] := by
  have none := (Memory.occurrence_eq_none_iff flag (cstr buf)).mpr absent
  simp only [computeAcceptKey,fetchSecKey,none,Traced.bind_log,Traced.bind_value,Traced.emit_log,
    Traced.pure_log,Traced.pure_value,List.append_nil]

theorem computeAcceptKey_log_found {offset : Nat} (found : Memory.occurrence flag (cstr buf) = some offset) :
    let copied := copyKey buf (offset+flag.length) (cstr buf).length 0 (List.replicate webSocketKeyLenMax 0)
    (computeAcceptKey (some buf)).log = .load .request 0 ((cstr buf).length+1)::
      (copied.log ++ [.store .key (cstr copied.value).length (Rfc6455.guid.length+1)]) := by
  simp only [computeAcceptKey,fetchSecKey,found,strcatKey,Traced.bind_log,Traced.bind_value,Traced.emit_log,
    Traced.pure_log,Traced.pure_value,List.append_nil,List.nil_append,List.cons_append]

theorem getD_tail {front tail : List UInt8} (split : cstr buf = front ++ (flag ++ tail)) {index : Nat}
    (inside : index ≤ tail.length) :
    buf.getD (front.length+flag.length+index) 0 = tail.getD index 0 := by
  obtain ⟨after,memory,ends⟩ := Memory.text_split 0 buf
  rw [show Memory.text 0 buf = cstr buf from rfl,split,← List.append_assoc,List.append_assoc _ tail] at memory
  rw [memory,List.getD_eq_getElem?_getD,← List.length_append,List.getElem?_append_right (Nat.le_add_right _ _),
    Nat.add_sub_cancel_left,List.getD_eq_getElem?_getD]
  rcases Nat.lt_or_eq_of_le inside with inner | rfl
  · rw [List.getElem?_append_left inner]
  · rw [List.getElem?_append_right (Nat.le_refl _),Nat.sub_self,← List.head?_eq_getElem?,
      List.getElem?_eq_none (Nat.le_refl _)]
    rcases ends with rfl | terminated
    · rfl
    · rw [terminated]
      rfl

/-- The key buffer with the key, which makes it longer where the key does not fit. -/
theorem copyKey_filled {front key rest : List UInt8} {eol : UInt8}
    (split : cstr buf = front ++ (flag ++ (key ++ eol::rest))) (ends : EndsLine eol)
    (line : ∀ c ∈ key, ¬EndsLine c) :
    0 ∉ key ∧ (copyKey buf (front.length+flag.length) (cstr buf).length 0
      (List.replicate webSocketKeyLenMax 0)).value = key ++ List.replicate (webSocketKeyLenMax-key.length) 0 := by
  obtain ⟨after,memory,_⟩ := Memory.text_split 0 buf
  have clean : 0 ∉ key := by
    intro member
    apply Memory.terminator_not_mem_text 0 buf
    rw [show Memory.text 0 buf = cstr buf from rfl,split]
    simp [member]
  have source : buf.drop (front.length+flag.length+([] : List UInt8).length) = key ++ eol::(rest ++ after) := by
    rw [memory,show Memory.text 0 buf = cstr buf from rfl,split,List.length_nil,Nat.add_zero,
      ← List.length_append,← List.append_assoc front,List.append_assoc (front ++ flag),List.drop_left]
    simp
  have long : key.length < (cstr buf).length := by
    rw [split]
    simp
    omega
  have copied := copyKey_value buf (front.length+flag.length) key eol ends line
    (cstr buf).length long [] (List.replicate webSocketKeyLenMax 0) _ source
  rw [List.length_nil,List.nil_append,List.nil_append,List.drop_replicate] at copied
  exact ⟨clean,copied⟩

/-- The key is what strcat finds in the buffer, also where it fills the buffer. -/
theorem copyKey_text {front key rest : List UInt8} {eol : UInt8}
    (split : cstr buf = front ++ (flag ++ (key ++ eol::rest))) (ends : EndsLine eol)
    (line : ∀ c ∈ key, ¬EndsLine c) :
    cstr (copyKey buf (front.length+flag.length) (cstr buf).length 0
      (List.replicate webSocketKeyLenMax 0)).value = key := by
  obtain ⟨clean,copied⟩ := copyKey_filled split ends line
  rw [copied]
  cases webSocketKeyLenMax-key.length with
  | zero => rw [List.replicate_zero,List.append_nil,cstr,Memory.text_of_not_mem clean]
  | succ room => exact Memory.text_terminated clean _

theorem Request.inside {key : List UInt8} (request : Request buf key) :
    (computeAcceptKey (some buf)).Always (Access.Inside buf) := by
  obtain ⟨front,eol,rest,found,ends⟩ := request.parts
  have fits := request.fits
  have size : Rfc6455.guid.length = 36 := by decide
  have length := congrArg List.length found.split
  simp only [List.length_append,List.length_cons] at length
  have stop : EndsLine (buf.getD (front.length+flag.length+(0+key.length)) 0) := by
    rw [Nat.zero_add,getD_tail found.split (by simp),List.getD_eq_getElem?_getD,
      List.getElem?_append_right (Nat.le_refl _),Nat.sub_self]
    exact ends
  have bounded : ∀ access ∈ (copyKey buf (front.length+flag.length) (cstr buf).length 0
      (List.replicate webSocketKeyLenMax 0)).log, _ :=
    copyKey_bounded stop (by omega : key.length < (cstr buf).length)
  intro access member
  rw [computeAcceptKey_log_found (Memory.occurrence_of_first found),List.mem_cons,List.mem_append,
    List.mem_singleton,copyKey_text found.split ends request.line] at member
  rcases member with rfl | copied | rfl
  · exact Nat.le_of_eq (Nat.zero_add _)
  · rcases bounded access copied with ⟨index,bound,rfl⟩ | ⟨index,bound,rfl⟩
    · simp only [Access.Inside,Region.size]
      omega
    · simp only [Access.Inside,Region.size,webSocketKeyLenMax]
      omega
  · simp only [Access.Inside,Region.size,webSocketKeyLenMax]
    omega

/-- Where no line ends behind the flag, the loop loads behind the terminator. -/
theorem unended_outside {front tail : List UInt8} (found : Memory.FirstOccurrence flag (cstr buf) front tail)
    (unended : ¬∃ c ∈ tail, EndsLine c) : ¬(computeAcceptKey (some buf)).Always (Access.Inside buf) := by
  intro inside
  have length := congrArg List.length found.split
  have named : flag.length = 19 := by decide
  simp only [List.length_append] at length
  have inner : ∀ index < tail.length+1, ¬EndsLine (buf.getD (front.length+flag.length+(0+index)) 0) := by
    intro index bound
    rw [Nat.zero_add,getD_tail found.split (Nat.le_of_lt_succ bound)]
    rcases Nat.lt_or_eq_of_le (Nat.le_of_lt_succ bound) with earlier | rfl
    · rw [List.getD_eq_getElem _ _ earlier]
      exact fun stops => unended ⟨_,List.getElem_mem earlier,stops⟩
    · rw [List.getD_eq_default _ _ (Nat.le_refl _)]
      decide
  have copied : .load .request (front.length+flag.length+(0+(tail.length+1))) 1 ∈
      (computeAcceptKey (some buf)).log := by
    rw [computeAcceptKey_log_found (Memory.occurrence_of_first found)]
    exact List.mem_cons_of_mem _ (List.mem_append_left _ (copyKey_overruns inner (by omega)))
  have loaded := inside _ copied
  simp only [Access.Inside,Region.size] at loaded
  omega

/-- All accesses stay inside for the requests without a key and those whose key leaves room
for the GUID and ends its line; there is no other. -/
theorem computeAcceptKey_inside_iff (buf : List UInt8) :
    (computeAcceptKey (some buf)).Always (Access.Inside buf) ↔
      ¬flag <:+: cstr buf ∨ ∃ key, Request buf key := by
  constructor
  · intro inside
    cases located : Memory.occurrence flag (cstr buf) with
    | none => exact Or.inl ((Memory.occurrence_eq_none_iff flag (cstr buf)).mp located)
    | some offset =>
      right
      obtain ⟨front,tail,found,rfl⟩ := Memory.occurrence_split located
      have log := computeAcceptKey_log_found located
      by_cases ends : ∃ c ∈ tail, EndsLine c
      · obtain ⟨key,eol,rest,rfl,ending,line⟩ := line_split ends
        refine ⟨key,⟨front,eol,rest,found,ending⟩,line,?_⟩
        have text := copyKey_text found.split ending line
        have appended := inside (.store .key key.length (Rfc6455.guid.length+1)) (by
          rw [log,text]
          simp)
        have size : Rfc6455.guid.length = 36 := by decide
        simp only [Access.Inside,Region.size,webSocketKeyLenMax] at appended
        omega
      · exact absurd inside (unended_outside found ends)
  · rintro (absent | ⟨key,request⟩)
    · intro access member
      rw [computeAcceptKey_log_absent absent,List.mem_singleton] at member
      exact member ▸ Nat.le_of_eq (Nat.zero_add _)
    · exact request.inside

/-- A request that ends after the name of the header is read on behind its terminator. -/
theorem computeAcceptKey_unended : ¬∀ buf : List UInt8, 0 ∈ buf → (cstr buf).length < requestLenMaxC →
    (computeAcceptKey (some buf)).Always (Access.Inside buf) := by
  intro always
  have named : cstr (flag ++ [0]) = [] ++ (flag ++ []) := by decide
  have found : Memory.FirstOccurrence flag (cstr (flag ++ [0])) [] [] := .of_occurrence named (by decide)
  have nothing : ¬∃ c ∈ ([] : List UInt8), EndsLine c := by simp
  exact unended_outside found nothing (always _ (by simp) (by decide))

end Libsme.Websocket
