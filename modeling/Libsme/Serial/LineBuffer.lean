import Libsme.Serial.LineReader

/-! The bounds of line_buffer: the stores of printf_thread_handle for any stream and any
chunks. What is stored is left aside; the offsets alone decide. -/
namespace Libsme.Serial
open Lines (lines unfinished)

/-- The finished lines fit line_buffer with their terminator. -/
def Short (cells : List UInt8) : Prop := ∀ line ∈ lines 0x0A cells, line.length ≤ 255

/-- The unfinished rest gets no terminator. -/
structure Fits (cells : List UInt8) : Prop where
  lines : Short cells
  rest : (unfinished 0x0A cells).length ≤ 256

theorem Fits.left {first more : List UInt8} (fits : Fits (first ++ more)) : Fits first := by
  refine ⟨fun line member => fits.lines line ((Lines.lines_prefix 0x0A first more).subset member),?_⟩
  apply Lines.unfinished_length_le first more _ fits.rest
  exact fun line member => Nat.le_succ_of_le (fits.lines line member)

section Chunk
variable {stream chunk tail : List UInt8} {oldLines : UInt32}

/-- The invariant of the loop over the chunk, before index `i`, whatever was stored. -/
structure Placed (stream chunk : List UInt8) (oldLines : UInt32) (i : Nat) (scan : Scan) : Prop where
  passed : scan.prEnd ≤ i
  pending : scan.lineS+(i-scan.prEnd) = (unfinished 0x0A (stream ++ chunk.take i)).length
  counted : ∃ count ≤ i, scan.lines = oldLines+UInt32.ofNat count ∧ (count = 0 → scan.prEnd = 0) ∧
    (count ≠ 0 → scan.lineS = 0)

structure Places (stream chunk : List UInt8) (oldLines : UInt32) (i j : Nat) (run : Traced Event Scan) : Prop where
  placed : Placed stream chunk oldLines j run.value
  inside_iff : (Short (stream ++ chunk.take i) ∧ run.Always Inside) ↔ Short (stream ++ chunk.take j)

private theorem scanByte_passes {i : Nat} {scan : Scan} (bound : i < chunk.length) (other : chunk[i] ≠ 0x0A)
    (placed : Placed stream chunk oldLines i scan) :
    Places stream chunk oldLines i (i+1) (scanByte (chunk ++ tail) scan i) := by
  have passed := placed.passed
  rw [scanByte,cell_eq bound,if_neg other]
  refine ⟨⟨Nat.le_succ_of_le passed,?_,?_⟩,?_⟩
  · rw [Traced.pure_value,taken_succ bound,Lines.unfinished_other _ other,List.length_append,← placed.pending,
      List.length_singleton]
    omega
  · obtain ⟨count,least,rest⟩ := placed.counted
    exact ⟨count,Nat.le_succ_of_le least,rest⟩
  · rw [Short,Short,taken_succ bound,Lines.lines_other _ other]
    simp

private theorem scanByte_ends {i : Nat} {scan : Scan} (bound : i < chunk.length) (ends : chunk[i] = 0x0A)
    (placed : Placed stream chunk oldLines i scan) :
    Places stream chunk oldLines i (i+1) (scanByte (chunk ++ tail) scan i) := by
  have passed := placed.passed
  have pending := placed.pending
  rw [scanByte_eq ((cell_eq bound).trans ends)]
  refine ⟨⟨Nat.le_refl _,?_,?_⟩,?_⟩
  · rw [taken_succ bound,ends,Lines.unfinished_newline]
    simp
  · exact counted_newline placed.counted
  · -- The terminator needs one cell more than the line.
    rw [Short,Short,taken_succ bound,ends,Lines.lines_newline,List.forall_mem_append,List.forall_mem_singleton,
      List.length_append,← pending,List.length_singleton]
    simp only [Traced.Always,List.forall_mem_cons,Inside,readBufferSize,List.not_mem_nil,false_imp_iff,implies_true,
      and_true]
    refine and_congr_right fun _ => ?_
    omega

private theorem scanLoop_places (tail : List UInt8) (remaining i : Nat) (turns : i+remaining = chunk.length)
    (scan : Scan) (placed : Placed stream chunk oldLines i scan) :
    Places stream chunk oldLines i chunk.length (scanLoop (chunk ++ tail) remaining i scan) := by
  induction remaining generalizing i scan with
  | zero =>
    obtain rfl : i = chunk.length := turns
    exact ⟨placed,and_iff_left (Traced.always_pure _ _)⟩
  | succ remaining ih =>
    have bound : i < chunk.length := by omega
    have first : Places stream chunk oldLines i (i+1) (scanByte (chunk ++ tail) scan i) := by
      by_cases ends : chunk[i] = 0x0A
      · exact scanByte_ends bound ends placed
      · exact scanByte_passes bound ends placed
    have later := ih (i+1) (by omega) _ first.placed
    refine ⟨later.placed,?_⟩
    rw [scanLoop,Traced.always_bind,← and_assoc,first.inside_iff]
    exact later.inside_iff

structure Kept (stream : List UInt8) (reader : Reader) : Prop where
  pending : reader.lineS = (unfinished 0x0A stream).length
  counted : reader.lines = reader.oldLines

private theorem printfThread_places {reader : Reader} {raw : List UInt8} (small : raw.length ≤ 256)
    (kept : Kept stream reader) (fits : Fits stream) :
    (∃ next, (printfThread reader raw).value = some next ∧ Kept (stream ++ raw.map blank) next) ∧
      ((printfThread reader raw).Always Inside ↔ Fits (stream ++ raw.map blank)) := by
  by_cases empty : raw.length = 0
  · obtain rfl := List.eq_nil_of_length_eq_zero empty
    rw [List.map_nil,List.append_nil]
    exact ⟨⟨reader,rfl,kept⟩,iff_of_true (Traced.always_pure _ _) fits⟩
  · have whole : (raw.map blank).take raw.length = raw.map blank := List.take_of_length_le (by simp)
    have start : Placed stream (raw.map blank) reader.oldLines 0 ⟨reader.lineBuffer,reader.lineS,reader.lines,0⟩ := by
      refine ⟨Nat.le_refl _,?_,0,Nat.le_refl _,?_,fun _ => rfl,absurd rfl⟩
      · simpa using kept.pending
      · exact kept.counted.trans (UInt32.add_zero _).symm
    have places := scanLoop_places (List.replicate (readBufferSize-raw.length) 0) raw.length 0 (by simp) _ start
    rw [← prBuffer_eq,List.length_map] at places
    generalize ran : scanLoop (prBuffer raw) raw.length 0 ⟨reader.lineBuffer,reader.lineS,reader.lines,0⟩ = run
      at places
    obtain ⟨placed,inside⟩ := places
    have passed := placed.passed
    have pending := placed.pending
    rw [whole,List.take_zero,List.append_nil] at inside
    rw [whole] at pending
    rw [printfThread_eq (Nat.pos_of_ne_zero empty) ran passed placed.counted small]
    refine ⟨⟨_,rfl,pending,rfl⟩,?_⟩
    have stored : Inside (.store run.value.lineS (raw.length-run.value.prEnd)) ↔
        (unfinished 0x0A (stream ++ raw.map blank)).length ≤ 256 := by
      rw [← pending]
      rfl
    simp only [Traced.Always,List.forall_mem_append,List.forall_mem_singleton,stored]
    constructor
    · rintro ⟨scanned,rest⟩
      exact ⟨inside.mp ⟨fits.lines,scanned⟩,rest⟩
    · intro later
      exact ⟨(inside.mpr later.lines).2,later.rest⟩

end Chunk

theorem loop_places (chunks : List (List UInt8)) (small : ∀ chunk ∈ chunks, chunk.length ≤ 256)
    (stream : List UInt8) (reader : Reader) (kept : Kept stream reader) (fits : Fits stream) :
    (∀ event ∈ Traced.loop printfThread reader chunks, Inside event) ↔
      Fits (stream ++ chunks.flatten.map blank) := by
  induction chunks generalizing stream reader with
  | nil => simpa using fits
  | cons chunk chunks ih =>
    obtain ⟨⟨next,stays,later⟩,inside⟩ := printfThread_places (small chunk List.mem_cons_self) kept fits
    rw [List.flatten_cons,List.map_append,← List.append_assoc,Traced.loop_next _ stays,List.forall_mem_append]
    have others := ih (fun other member => small other (List.mem_cons_of_mem _ member)) _ next later
    constructor
    · rintro ⟨first,rest⟩
      exact (others (inside.mp first)).mp rest
    · intro all
      exact ⟨inside.mpr all.left,(others all.left).mpr all⟩

/-- A stream from the device in the chunks that are drained. -/
structure Drained where
  chunks : List (List UInt8)
  small : ∀ chunk ∈ chunks, chunk.length ≤ readBufferSize

namespace Drained

def stream (drained : Drained) : List UInt8 := drained.chunks.flatten

def StoresInside (drained : Drained) : Prop :=
  ∀ event ∈ Traced.loop printfThread Reader.start drained.chunks, Inside event

theorem fits_blank_iff (cells : List UInt8) : Fits (cells.map blank) ↔ Fits cells := by
  have cut := Lines.split_map blank blank_newline cells
  have mappedLines : lines 0x0A (cells.map blank) = (lines 0x0A cells).map (List.map blank) := congrArg Prod.fst cut
  have mappedRest : unfinished 0x0A (cells.map blank) = (unfinished 0x0A cells).map blank := congrArg Prod.snd cut
  constructor
  · rintro ⟨short,rest⟩
    rw [Short,mappedLines,List.forall_mem_map] at short
    rw [mappedRest,List.length_map] at rest
    exact ⟨fun line member => by simpa using short line member,rest⟩
  · rintro ⟨short,rest⟩
    refine ⟨?_,by rw [mappedRest,List.length_map]; exact rest⟩
    rw [Short,mappedLines,List.forall_mem_map]
    intro line member
    rw [List.length_map]
    exact short line member

theorem inside_fits (drained : Drained) : drained.StoresInside ↔ Fits drained.stream := by
  have start : Kept [] Reader.start := ⟨rfl,rfl⟩
  have nothing : Fits [] := ⟨fun line member => absurd member List.not_mem_nil,Nat.zero_le _⟩
  have whole := loop_places drained.chunks drained.small [] Reader.start start nothing
  rw [List.nil_append,fits_blank_iff] at whole
  exact whole

/-- However the stream is cut, the stores stay inside line_buffer exactly where each line
has at most 255 bytes with its newline and the rest at most 256. -/
theorem storesInside_iff (drained : Drained) : drained.StoresInside ↔
    (∀ line ∈ lines 0x0A drained.stream, line.length ≤ 255) ∧ (unfinished 0x0A drained.stream).length ≤ 256 :=
  drained.inside_fits.trans ⟨fun fits => ⟨fits.lines,fits.rest⟩,fun all => ⟨all.1,all.2⟩⟩

end Drained

/-- A line of 256 bytes, which one chunk holds. -/
def longLine : Drained where
  chunks := [List.replicate 255 0x41 ++ [0x0A]]
  small := by decide +kernel

theorem lineBuffer_overrun : ¬∀ drained : Drained, drained.StoresInside := by
  intro always
  have fits := longLine.inside_fits.mp (always longLine)
  have long : List.replicate 255 0x41 ++ [0x0A] ∈ lines 0x0A longLine.stream := by decide +kernel
  exact absurd (fits.lines _ long) (by decide +kernel)

end Libsme.Serial
