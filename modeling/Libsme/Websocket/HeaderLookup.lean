import Libsme.Websocket.KeyBuffer

/-! fetchSecKey as the lookup of a header field: a search for the text of the field's usual
spelling, anywhere in the request. -/
namespace Libsme.Websocket
open Semantics
open Memory (cstr occurrence FirstOccurrence)

abbrev IsBlank (c : UInt8) : Prop := c = 32 ∨ c = 9

def keyName : List UInt8 := Rfc4648.ascii "sec-websocket-key"

def fieldName (line : List UInt8) : List UInt8 := line.takeWhile (· ≠ 58)

structure RequestParts where
  requestLine : List UInt8
  before : List (List UInt8)
  name : List UInt8
  blank : List UInt8
  value : List UInt8
  trailing : List UInt8
  after : List (List UInt8)

namespace RequestParts

def keyLine (parts : RequestParts) : List UInt8 := parts.name ++ 58::(parts.blank ++ (parts.value ++ parts.trailing))

def lines (parts : RequestParts) : List (List UInt8) :=
  parts.requestLine::(parts.before ++ parts.keyLine::parts.after)

end RequestParts

/-- A request line and header lines, exactly one of which has the name of the key field;
`rest` lies behind the terminator of the request in memory. -/
structure HttpRequest extends RequestParts where
  named : name.map tolower = keyName
  blanks : ∀ c ∈ blank ++ trailing, IsBlank c
  trimmed : (∀ c ∈ value.head?, ¬IsBlank c) ∧ ∀ c ∈ value.getLast?, ¬IsBlank c
  others : ∀ line ∈ before ++ after, (fieldName line).map tolower ≠ keyName
  clean : ∀ line ∈ toRequestParts.lines, ∀ c ∈ line, c ≠ 0 ∧ ¬EndsLine c
  rest : List UInt8

namespace HttpRequest

def render : List (List UInt8) → List UInt8
  | [] => [0x0D,0x0A]
  | line::lines => line ++ 0x0D::0x0A::render lines

def memory (request : HttpRequest) : List UInt8 := render request.lines ++ 0::request.rest

/-- fetchSecKey stays inside the buffers and returns the value as a string. -/
def Fetched (request : HttpRequest) : Prop :=
  (fetchSecKey (some request.memory)).Always (Access.Inside request.memory) ∧
    ∃ key, (fetchSecKey (some request.memory)).value = some key ∧ 0 ∈ key ∧ cstr key = request.value

/-- The first line that has the text of the flag has the value behind it, which leaves the
buffer room for a terminator. -/
structure Spelled (request : HttpRequest) : Prop where
  fits : request.value.length < webSocketKeyLenMax
  first : ∃ earlier front later, request.lines = earlier ++ (front ++ (flag ++ request.value))::later ∧
    (∀ line ∈ earlier, ¬flag <:+: line) ∧
    FirstOccurrence flag (front ++ (flag ++ request.value)) front request.value

theorem flag_stops : 0x0D ∉ flag ∧ 0x0A ∉ flag ∧ flag ≠ [] := by decide

theorem occurrence_render_cons (line : List UInt8) (lines : List (List UInt8)) :
    occurrence flag (render (line::lines)) =
      (occurrence flag line).or ((occurrence flag (render lines)).map (·+(line.length+2))) := by
  obtain ⟨cr,lf,nonempty⟩ := flag_stops
  have empty : occurrence flag [] = none := by decide
  have feed := Memory.occurrence_stop lf nonempty [] (render lines)
  rw [List.nil_append,empty,Option.none_or] at feed
  rw [render,Memory.occurrence_stop cr nonempty,feed,Option.map_map]
  congr 2
  funext offset
  simp only [Function.comp_apply,List.length_nil]
  omega

theorem occurrence_render_absent {lines : List (List UInt8)} (absent : ∀ line ∈ lines, ¬flag <:+: line) :
    occurrence flag (render lines) = none := by
  induction lines with
  | nil => decide
  | cons line lines ih =>
    have here := (Memory.occurrence_eq_none_iff flag line).mpr (absent line List.mem_cons_self)
    have later := ih fun other member => absent other (List.mem_cons_of_mem _ member)
    rw [occurrence_render_cons,here,later]
    rfl

theorem occurrence_render_first {earlier later : List (List UInt8)} {line front tail : List UInt8}
    (absent : ∀ line ∈ earlier, ¬flag <:+: line) (found : FirstOccurrence flag line front tail) :
    ∃ before, render (earlier ++ line::later) = before ++ (flag ++ (tail ++ 0x0D::0x0A::render later)) ∧
      occurrence flag (render (earlier ++ line::later)) = some before.length := by
  induction earlier with
  | nil =>
    have here := Memory.occurrence_of_first found
    refine ⟨front,?_,?_⟩
    · rw [List.nil_append,render,found.split]
      simp
    · rw [List.nil_append,occurrence_render_cons,here,Option.some_or]
  | cons head earlier ih =>
    have here := (Memory.occurrence_eq_none_iff flag head).mpr (absent head List.mem_cons_self)
    obtain ⟨before,split,located⟩ := ih fun other member => absent other (List.mem_cons_of_mem _ member)
    refine ⟨head ++ 0x0D::0x0A::before,?_,?_⟩
    · rw [List.cons_append,render,split]
      simp
    · rw [List.cons_append,occurrence_render_cons,here,located,Option.none_or,Option.map_some]
      simp only [List.length_append,List.length_cons]
      congr 1
      omega

theorem first_line {lines : List (List UInt8)} (present : ∃ line ∈ lines, flag <:+: line) :
    ∃ earlier line later front tail, lines = earlier ++ line::later ∧ (∀ line ∈ earlier, ¬flag <:+: line) ∧
      FirstOccurrence flag line front tail := by
  induction lines with
  | nil =>
    obtain ⟨line,member,_⟩ := present
    exact absurd member List.not_mem_nil
  | cons head lines ih =>
    cases located : occurrence flag head with
    | some offset =>
      obtain ⟨front,tail,found,-⟩ := Memory.occurrence_split located
      exact ⟨[],head,lines,front,tail,rfl,fun _ member => absurd member List.not_mem_nil,found⟩
    | none =>
      have here := (Memory.occurrence_eq_none_iff flag head).mp located
      obtain ⟨line,member,occurs⟩ := present
      rcases List.mem_cons.mp member with rfl | later
      · exact absurd occurs here
      · obtain ⟨earlier,line,rest,front,tail,split,absent,found⟩ := ih ⟨line,later,occurs⟩
        refine ⟨head::earlier,line,rest,front,tail,by rw [split]; rfl,?_,found⟩
        intro other inside
        rcases List.mem_cons.mp inside with rfl | inner
        · exact here
        · exact absent other inner

theorem render_clean {lines : List (List UInt8)} (clean : ∀ line ∈ lines, 0 ∉ line) : 0 ∉ render lines := by
  induction lines with
  | nil => decide
  | cons line lines ih =>
    have here := clean line List.mem_cons_self
    have later := ih fun other member => clean other (List.mem_cons_of_mem _ member)
    simp [render,here,later]

section
variable (request : HttpRequest)

theorem text : cstr request.memory = render request.lines :=
  Memory.text_terminated (render_clean fun line member nul => (request.clean line member 0 nul).1 rfl) request.rest

theorem fetched_absent (absent : ∀ line ∈ request.lines, ¬flag <:+: line) : ¬request.Fetched := by
  have none := occurrence_render_absent absent
  rw [← text] at none
  rintro ⟨-,key,fetched,-⟩
  simp only [fetchSecKey,none,Traced.bind_value,Traced.pure_value] at fetched
  exact Option.some_ne_none key fetched.symm

variable {earlier later : List (List UInt8)} {line front tail : List UInt8}

/-- fetchSecKey takes what follows the first occurrence of the flag in its line. -/
theorem fetched_found (split : request.lines = earlier ++ line::later) (absent : ∀ line ∈ earlier, ¬flag <:+: line)
    (found : FirstOccurrence flag line front tail) :
    request.Fetched ↔ tail = request.value ∧ tail.length < webSocketKeyLenMax := by
  obtain ⟨before,parts,located⟩ := occurrence_render_first absent found
  rw [← split,← text] at parts located
  have oneLine : ∀ c ∈ tail, ¬EndsLine c := by
    intro c member
    have inside : c ∈ line := by
      rw [found.split]
      simp [member]
    exact (request.clean line (by rw [split]; simp) c inside).2
  obtain ⟨nul,copied⟩ := copyKey_filled parts (Or.inr rfl) oneLine
  have string := copyKey_text parts (Or.inr rfl) oneLine
  have fetched : fetchSecKey (some request.memory) = ⟨some (copyKey request.memory (before.length+flag.length)
      (cstr request.memory).length 0 (List.replicate webSocketKeyLenMax 0)).value,
      .load .request 0 ((cstr request.memory).length+1)::(copyKey request.memory (before.length+flag.length)
      (cstr request.memory).length 0 (List.replicate webSocketKeyLenMax 0)).log⟩ := by
    apply Traced.ext
    · simp only [fetchSecKey,located,Traced.bind_value,Traced.pure_value]
    · simp only [fetchSecKey,located,Traced.bind_log,Traced.emit_log,Traced.pure_log,List.append_nil,
        List.singleton_append]
  have terminated : 0 ∈ tail ++ List.replicate (webSocketKeyLenMax-tail.length) (0 : UInt8) ↔
      tail.length < webSocketKeyLenMax := by
    simp [nul]
    omega
  rw [Fetched,fetched]
  constructor
  · rintro ⟨-,key,same,room,value⟩
    obtain rfl := Option.some.inj same
    rw [copied,terminated] at room
    exact ⟨string.symm.trans value,room⟩
  · rintro ⟨same,room⟩
    refine ⟨?_,_,rfl,by rw [copied]; exact terminated.mpr room,string.trans same⟩
    have length := congrArg List.length parts
    simp only [List.length_append,List.length_cons] at length
    have stop : EndsLine (request.memory.getD (before.length+flag.length+(0+tail.length)) 0) := by
      rw [Nat.zero_add,getD_tail parts (by simp),List.getD_eq_getElem?_getD,
        List.getElem?_append_right (Nat.le_refl _),Nat.sub_self]
      exact Or.inr rfl
    have bounded : ∀ access ∈ (copyKey request.memory (before.length+flag.length) (cstr request.memory).length 0
        (List.replicate webSocketKeyLenMax 0)).log, _ :=
      copyKey_bounded stop (by omega : tail.length < (cstr request.memory).length)
    intro access member
    rcases List.mem_cons.mp member with rfl | inner
    · exact Nat.le_of_eq (Nat.zero_add _)
    · rcases bounded access inner with ⟨index,bound,rfl⟩ | ⟨index,bound,rfl⟩
      · simp only [Access.Inside,Region.size]
        omega
      · simp only [Access.Inside,Region.size]
        omega

end

/-- The lookup is right exactly where the first line with the usual spelling of the name,
a colon and one blank has the value behind it; other spellings are not looked for. -/
theorem fetched_iff (request : HttpRequest) : request.Fetched ↔ request.Spelled := by
  constructor
  · intro fetched
    have present : ∃ line ∈ request.lines, flag <:+: line := by
      by_contra nowhere
      exact request.fetched_absent (fun line member occurs => nowhere ⟨line,member,occurs⟩) fetched
    obtain ⟨earlier,line,later,front,tail,split,absent,found⟩ := first_line present
    obtain ⟨same,room⟩ := (request.fetched_found split absent found).mp fetched
    subst same
    have whole := found.split
    subst whole
    exact ⟨room,earlier,front,later,split,absent,found⟩
  · rintro ⟨room,earlier,front,later,split,absent,found⟩
    exact (request.fetched_found split absent found).mpr ⟨rfl,room⟩

end HttpRequest

/-- A request whose client writes field names in lower case. -/
def lowerCaseRequest : HttpRequest where
  requestLine := Rfc4648.ascii "GET /chat HTTP/1.1"
  before := [Rfc4648.ascii "host: a"]
  name := keyName
  blank := [32]
  value := sampleKey
  trailing := []
  after := [Rfc4648.ascii "upgrade: websocket"]
  named := by decide +kernel
  blanks := by decide +kernel
  trimmed := by decide +kernel
  others := by decide +kernel
  clean := by decide +kernel
  rest := []

theorem fetchSecKey_lowerCase : ¬∀ request : HttpRequest, request.Fetched := by
  intro always
  exact lowerCaseRequest.fetched_absent (by decide +kernel) (always lowerCaseRequest)

end Libsme.Websocket
