import Libsme.Library.Lines
import Libsme.Library.Memory
import Libsme.Library.Traced

/-! printf_thread_handle of serial_run.cpp: what it does with one chunk drained from
`read_buffer`, and with the chunks one after the other. Stores into `line_buffer` and
calls of `tty_context_handle` are logged. -/
namespace Libsme.Serial
open Lines (lines unfinished)
open Memory (cstr fetch overwrite)

inductive Event where
  | store (start size : Nat)
  | context (buf : List UInt8)
deriving DecidableEq

def readBufferSize : Nat := 256

/-- `int hook_mode = 1`, which nothing assigns. -/
def hookMode : Bool := true

/-- The variables of the thread that outlive a chunk; `lines` and `old_lines` are kept as
their 32 bits. -/
structure Reader where
  lineBuffer : List UInt8
  lineS : Nat
  lines : UInt32
  oldLines : UInt32

def Reader.start : Reader := ⟨List.replicate readBufferSize 0x20,0,0,0⟩

structure Scan where
  lineBuffer : List UInt8
  lineS : Nat
  lines : UInt32
  prEnd : Nat

def storeLine (lineBuffer : List UInt8) (start : Nat) (block : List UInt8) : Traced Event (List UInt8) := do
  Traced.emit (.store start block.length)
  pure (overwrite lineBuffer start block)

def blank (c : UInt8) : UInt8 := if c = 0 then 0x20 else c

/-- `pr_buffer` after the copy and the loop that replaces the NULs. -/
def prBuffer (chunk : List UInt8) : List UInt8 :=
  let copied := overwrite (List.replicate readBufferSize 0) 0 chunk
  (copied.take chunk.length).map blank ++ copied.drop chunk.length

def scanByte (prBuffer : List UInt8) (scan : Scan) (i : Nat) : Traced Event Scan :=
  if prBuffer.getD i 0 = 0x0A then do
    let lineBuffer ← storeLine scan.lineBuffer scan.lineS (fetch prBuffer scan.prEnd (i-scan.prEnd+1))
    let lineBuffer ← storeLine lineBuffer (scan.lineS+i-scan.prEnd+1) [0]
    if hookMode then Traced.emit (.context (cstr lineBuffer))
    pure ⟨lineBuffer,0,scan.lines+1,i+1⟩
  else pure scan

def scanLoop (prBuffer : List UInt8) : Nat → Nat → Scan → Traced Event Scan
  | 0, _, scan => pure scan
  | remaining+1, i, scan => do
    let scan ← scanByte prBuffer scan i
    scanLoop prBuffer remaining (i+1) scan

def printfThread (reader : Reader) (chunk : List UInt8) : Traced Event (Option Reader) :=
  let size := chunk.length
  if size ≤ 0 then pure (some reader)
  else do
    let scan ← scanLoop (prBuffer chunk) size 0 ⟨reader.lineBuffer,reader.lineS,reader.lines,0⟩
    if scan.lines = reader.oldLines then do
      let lineBuffer ← storeLine scan.lineBuffer scan.lineS (fetch (prBuffer chunk) 0 size)
      pure (some ⟨lineBuffer,scan.lineS+size,scan.lines,scan.lines⟩)
    else do
      let lineBuffer ← storeLine scan.lineBuffer scan.lineS (fetch (prBuffer chunk) scan.prEnd (size-scan.prEnd))
      pure (some ⟨lineBuffer,size-scan.prEnd,scan.lines,scan.lines⟩)

def contexts (log : List Event) : List (List UInt8) :=
  log.filterMap fun event => match event with
    | .context buf => some buf
    | .store _ _ => none

@[simp] theorem contexts_append (first second : List Event) :
    contexts (first ++ second) = contexts first ++ contexts second :=
  List.filterMap_append

def Inside : Event → Prop
  | .store start size => start+size ≤ readBufferSize
  | .context _ => True

theorem prBuffer_eq (chunk : List UInt8) :
    prBuffer chunk = chunk.map blank ++ List.replicate (readBufferSize-chunk.length) 0 := by
  simp only [prBuffer,Memory.overwrite_start,List.take_left,List.drop_left,List.drop_replicate]

section Chunk
/- `stream` has been read before and `chunk` is being read; neither has a NUL any more, and
no line that they contain is longer than `line_buffer` allows. -/
variable {stream chunk tail : List UInt8} {oldLines : UInt32}

/-- The invariant of the loop over the chunk, before index `i`. -/
structure Scanned (stream chunk : List UInt8) (oldLines : UInt32) (i : Nat) (scan : Scan) : Prop where
  passed : scan.prEnd ≤ i
  room : scan.lineBuffer.length = readBufferSize
  held : scan.lineS ≤ readBufferSize
  pending : scan.lineBuffer.take scan.lineS ++ (chunk.drop scan.prEnd).take (i-scan.prEnd) =
    unfinished 0x0A (stream ++ chunk.take i)
  counted : ∃ count ≤ i, scan.lines = oldLines+UInt32.ofNat count ∧ (count = 0 → scan.prEnd = 0) ∧
    (count ≠ 0 → scan.lineS = 0)

structure Bounded (cells : List UInt8) : Prop where
  clean : 0 ∉ cells
  lines : ∀ line ∈ lines 0x0A cells, line.length ≤ 255
  rest : (unfinished 0x0A cells).length ≤ 255

private theorem piece_succ {start i : Nat} (passed : start ≤ i) (bound : i < chunk.length) :
    (chunk.drop start).take (i+1-start) = (chunk.drop start).take (i-start) ++ [chunk[i]] := by
  have inside : i-start < (chunk.drop start).length := by
    rw [List.length_drop]
    omega
  have cell : (chunk.drop start)[i-start] = chunk[i] := by
    rw [List.getElem_drop]
    congr 1
    omega
  rw [show i+1-start = i-start+1 by omega,List.take_succ_eq_append_getElem inside,cell]

theorem cell_eq {i : Nat} (bound : i < chunk.length) : (chunk ++ tail).getD i 0 = chunk[i] := by
  rw [List.getD_eq_getElem?_getD,List.getElem?_append_left bound,List.getElem?_eq_getElem bound]
  rfl

theorem taken_succ {i : Nat} (bound : i < chunk.length) :
    stream ++ chunk.take (i+1) = (stream ++ chunk.take i) ++ [chunk[i]] := by
  rw [List.take_succ_eq_append_getElem bound,List.append_assoc]

/-- What a part of the chunk does: it stores inside, keeps the invariant and reports the
lines that end in it. -/
structure Reads (stream chunk : List UInt8) (oldLines : UInt32) (i j : Nat) (run : Traced Event Scan) : Prop where
  inside : run.Always Inside
  scanned : Scanned stream chunk oldLines j run.value
  reported : lines 0x0A (stream ++ chunk.take j) = lines 0x0A (stream ++ chunk.take i) ++ contexts run.log

private theorem scanByte_other {i : Nat} {scan : Scan} (bound : i < chunk.length) (other : chunk[i] ≠ 0x0A)
    (scanned : Scanned stream chunk oldLines i scan) :
    Reads stream chunk oldLines i (i+1) (scanByte (chunk ++ tail) scan i) := by
  rw [scanByte,cell_eq bound,if_neg other]
  refine ⟨by simp,⟨?_,scanned.room,scanned.held,?_,?_⟩,?_⟩
  · exact Nat.le_succ_of_le scanned.passed
  · rw [Traced.pure_value,piece_succ scanned.passed bound,← List.append_assoc,scanned.pending,
      taken_succ bound,Lines.unfinished_other _ other]
  · obtain ⟨count,least,rest⟩ := scanned.counted
    exact ⟨count,Nat.le_succ_of_le least,rest⟩
  · rw [taken_succ bound,Lines.lines_other _ other]
    simp [contexts]

private theorem line_bounded {i : Nat} (bound : i < chunk.length) (ends : chunk[i] = 0x0A)
    (bounded : Bounded (stream ++ chunk)) :
    (unfinished 0x0A (stream ++ chunk.take i) ++ [0x0A]).length ≤ 255 ∧
      0 ∉ unfinished 0x0A (stream ++ chunk.take i) ++ [0x0A] := by
  constructor
  · have earlier := Lines.lines_prefix 0x0A (stream ++ chunk.take (i+1)) (chunk.drop (i+1))
    rw [List.append_assoc,List.take_append_drop] at earlier
    apply bounded.lines _ (earlier.subset _)
    rw [taken_succ bound,ends,Lines.lines_newline]
    simp
  · intro member
    apply bounded.clean
    obtain member | member := List.mem_append.mp member
    · have earlier := Lines.mem_of_mem_unfinished member
      rw [List.mem_append] at earlier ⊢
      exact earlier.imp_right List.mem_of_mem_take
    · exact absurd member (by decide)

def finished (prBuffer : List UInt8) (scan : Scan) (i : Nat) : List UInt8 :=
  overwrite (overwrite scan.lineBuffer scan.lineS (fetch prBuffer scan.prEnd (i-scan.prEnd+1)))
    (scan.lineS+i-scan.prEnd+1) [0]

theorem scanByte_eq {prBuffer : List UInt8} {scan : Scan} {i : Nat} (ends : prBuffer.getD i 0 = 0x0A) :
    scanByte prBuffer scan i = ⟨⟨finished prBuffer scan i,0,scan.lines+1,i+1⟩,
      [.store scan.lineS (i-scan.prEnd+1),.store (scan.lineS+i-scan.prEnd+1) 1,
        .context (cstr (finished prBuffer scan i))]⟩ := by
  rw [scanByte,if_pos ends]
  apply Traced.ext <;> simp [storeLine,hookMode,finished]

theorem counted_newline {oldLines lines : UInt32} {i prEnd : Nat} {P : Nat → Prop}
    (counted : ∃ count ≤ i, lines = oldLines+UInt32.ofNat count ∧ P count) :
    ∃ count ≤ i+1, lines+1 = oldLines+UInt32.ofNat count ∧ (count = 0 → prEnd = 0) ∧ (count ≠ 0 → 0 = 0) := by
  obtain ⟨count,least,moved,_⟩ := counted
  refine ⟨count+1,Nat.succ_le_succ least,?_,fun zero => absurd zero (Nat.succ_ne_zero count),fun _ => rfl⟩
  rw [moved,UInt32.ofNat_add,UInt32.add_assoc]
  rfl

/-- At a newline `line_buffer` holds the line, and with it the terminator fits. -/
private theorem Scanned.line {i : Nat} {scan : Scan} (scanned : Scanned stream chunk oldLines i scan)
    (bound : i < chunk.length) (ends : chunk[i] = 0x0A) (bounded : Bounded (stream ++ chunk))
    (tail : List UInt8) :
    scan.lineBuffer.take scan.lineS ++ fetch (chunk ++ tail) scan.prEnd (i-scan.prEnd+1) =
        unfinished 0x0A (stream ++ chunk.take i) ++ [0x0A] ∧
      scan.lineS+(i-scan.prEnd+1) ≤ 255 := by
  have passed := scanned.passed
  have room : scan.lineBuffer.length = 256 := scanned.room
  have held : scan.lineS ≤ 256 := scanned.held
  have whole : scan.lineBuffer.take scan.lineS ++ fetch (chunk ++ tail) scan.prEnd (i-scan.prEnd+1) =
      unfinished 0x0A (stream ++ chunk.take i) ++ [0x0A] := by
    rw [Memory.fetch_prefix _ _ _ _ (by omega),Memory.fetch_eq_take_drop _ _ _ (by omega),
      ← Nat.sub_add_comm passed,piece_succ passed bound,ends,← List.append_assoc,scanned.pending]
  have short := (line_bounded bound ends bounded).1
  rw [← whole,List.length_append,List.length_take,Memory.fetch_length] at short
  exact ⟨whole,by omega⟩

private theorem Scanned.finished {i : Nat} {scan : Scan} (scanned : Scanned stream chunk oldLines i scan)
    (bound : i < chunk.length) (ends : chunk[i] = 0x0A) (bounded : Bounded (stream ++ chunk))
    (tail : List UInt8) :
    cstr (finished (chunk ++ tail) scan i) = unfinished 0x0A (stream ++ chunk.take i) ++ [0x0A] ∧
      (finished (chunk ++ tail) scan i).length = readBufferSize := by
  have passed := scanned.passed
  have room : scan.lineBuffer.length = 256 := scanned.room
  obtain ⟨whole,fits⟩ := scanned.line bound ends bounded tail
  have size := Memory.fetch_length (chunk ++ tail) scan.prEnd (i-scan.prEnd+1)
  constructor
  · have clean := (line_bounded bound ends bounded).2
    have index : scan.lineS+i-scan.prEnd+1 =
        scan.lineS+(fetch (chunk ++ tail) scan.prEnd (i-scan.prEnd+1)).length := by omega
    rw [← whole] at clean ⊢
    rw [Serial.finished,index]
    exact Memory.text_overwrite_terminated (by omega) clean
  · have first := Memory.overwrite_length scan.lineBuffer scan.lineS
      (fetch (chunk ++ tail) scan.prEnd (i-scan.prEnd+1)) (by omega)
    rw [Serial.finished,Memory.overwrite_length _ _ _ (by rw [first,List.length_singleton]; omega),first,room]
    rfl

private theorem scanByte_newline {i : Nat} {scan : Scan} (bound : i < chunk.length) (ends : chunk[i] = 0x0A)
    (bounded : Bounded (stream ++ chunk)) (scanned : Scanned stream chunk oldLines i scan) :
    Reads stream chunk oldLines i (i+1) (scanByte (chunk ++ tail) scan i) := by
  have passed := scanned.passed
  have fits := (scanned.line bound ends bounded tail).2
  obtain ⟨string,kept⟩ := scanned.finished bound ends bounded tail
  rw [scanByte_eq ((cell_eq bound).trans ends)]
  refine ⟨?_,⟨Nat.le_refl _,kept,Nat.zero_le _,?_,?_⟩,?_⟩
  · simp only [Traced.Always,List.forall_mem_cons,Inside,readBufferSize]
    exact ⟨by omega,by omega,trivial,List.forall_mem_nil _⟩
  · rw [taken_succ bound,ends,Lines.unfinished_newline]
    simp
  · exact counted_newline scanned.counted
  · rw [taken_succ bound,ends,Lines.lines_newline,← string]
    rfl

private theorem scanLoop_reads (tail : List UInt8) (bounded : Bounded (stream ++ chunk)) (remaining i : Nat)
    (turns : i+remaining = chunk.length) (scan : Scan) (scanned : Scanned stream chunk oldLines i scan) :
    Reads stream chunk oldLines i chunk.length (scanLoop (chunk ++ tail) remaining i scan) := by
  induction remaining generalizing i scan with
  | zero =>
    obtain rfl : i = chunk.length := turns
    exact ⟨Traced.always_pure _ _,scanned,by simp [scanLoop,contexts]⟩
  | succ remaining ih =>
    have bound : i < chunk.length := by omega
    have first : Reads stream chunk oldLines i (i+1) (scanByte (chunk ++ tail) scan i) := by
      by_cases ends : chunk[i] = 0x0A
      · exact scanByte_newline bound ends bounded scanned
      · exact scanByte_other bound ends scanned
    have later := ih (i+1) (by omega) _ first.scanned
    refine ⟨?_,later.scanned,?_⟩
    · exact (Traced.always_bind _ _ _).mpr ⟨first.inside,later.inside⟩
    · rw [later.reported,first.reported,scanLoop,Traced.bind_log,contexts_append,List.append_assoc]

structure Holds (stream : List UInt8) (reader : Reader) : Prop where
  room : reader.lineBuffer.length = readBufferSize
  held : reader.lineS ≤ readBufferSize
  pending : reader.lineBuffer.take reader.lineS = unfinished 0x0A stream
  counted : reader.lines = reader.oldLines

private theorem Holds.scanned {reader : Reader} (holds : Holds stream reader) (chunk : List UInt8) :
    Scanned stream chunk reader.oldLines 0 ⟨reader.lineBuffer,reader.lineS,reader.lines,0⟩ := by
  refine ⟨Nat.le_refl _,holds.room,holds.held,?_,0,Nat.le_refl _,?_,fun _ => rfl,absurd rfl⟩
  · simpa using holds.pending
  · exact holds.counted.trans (UInt32.add_zero _).symm

/-- After the loop the rest of the chunk is copied behind what is held; `count` newlines were found. -/
theorem printfThread_eq {reader : Reader} {raw : List UInt8} (nonempty : 1 ≤ raw.length) {scan : Scan}
    {log : List Event}
    (ran : scanLoop (prBuffer raw) raw.length 0 ⟨reader.lineBuffer,reader.lineS,reader.lines,0⟩ = ⟨scan,log⟩)
    (passed : scan.prEnd ≤ raw.length)
    (counted : ∃ count ≤ raw.length, scan.lines = reader.oldLines+UInt32.ofNat count ∧ (count = 0 → scan.prEnd = 0) ∧
      (count ≠ 0 → scan.lineS = 0)) (small : raw.length ≤ 256) :
    printfThread reader raw =
      ⟨some ⟨overwrite scan.lineBuffer scan.lineS ((raw.map blank).drop scan.prEnd),
        scan.lineS+(raw.length-scan.prEnd),scan.lines,scan.lines⟩,
        log ++ [.store scan.lineS (raw.length-scan.prEnd)]⟩ := by
  have copied (start : Nat) (inside : start ≤ raw.length) :
      fetch (prBuffer raw) start (raw.length-start) = (raw.map blank).drop start := by
    rw [prBuffer_eq,Memory.fetch_prefix _ _ _ _ (by rw [List.length_map]; omega),
      Memory.fetch_eq_take_drop _ _ _ (by rw [List.length_map]; omega)]
    exact List.take_of_length_le (by simp)
  obtain ⟨count,least,moved,start,reset⟩ := counted
  have whole := copied 0 (Nat.zero_le _)
  rw [Nat.sub_zero] at whole
  rw [printfThread,if_neg (by omega),ran]
  by_cases none : count = 0
  · subst none
    have same : scan.lines = reader.oldLines := moved.trans (UInt32.add_zero _)
    apply Traced.ext <;> simp [storeLine,same,start rfl,whole]
  · have differs : scan.lines ≠ reader.oldLines := by
      -- The counter wraps, but not within 256 newlines.
      intro same
      have wrapped := congrArg UInt32.toNat (moved.symm.trans same)
      have bound := reader.oldLines.toNat_lt
      rw [UInt32.toNat_add,UInt32.toNat_ofNat_of_lt' (show count < 2^32 by omega)] at wrapped
      omega
    apply Traced.ext <;> simp [storeLine,differs,reset none,copied _ passed]

private theorem printfThread_reads {reader : Reader} {raw : List UInt8} (nonempty : 1 ≤ raw.length)
    (small : raw.length ≤ 256) (bounded : Bounded (stream ++ raw.map blank)) (holds : Holds stream reader) :
    (∃ next, (printfThread reader raw).value = some next ∧ Holds (stream ++ raw.map blank) next) ∧
      (∀ event ∈ (printfThread reader raw).log, Inside event) ∧
      lines 0x0A (stream ++ raw.map blank) = lines 0x0A stream ++ contexts (printfThread reader raw).log := by
  have whole : (raw.map blank).take raw.length = raw.map blank := List.take_of_length_le (by simp)
  have reads := scanLoop_reads (List.replicate (readBufferSize-raw.length) 0) bounded raw.length 0
    (by simp) _ (holds.scanned (raw.map blank))
  rw [← prBuffer_eq,List.length_map] at reads
  obtain ⟨inside,scanned,reported⟩ := reads
  rw [whole,List.take_zero,List.append_nil] at reported
  generalize ran : scanLoop (prBuffer raw) raw.length 0 ⟨reader.lineBuffer,reader.lineS,reader.lines,0⟩ = run
    at inside scanned reported
  have passed := scanned.passed
  have held := scanned.held
  have room := scanned.room
  have pending := scanned.pending
  have size : ((raw.map blank).drop run.value.prEnd).length = raw.length-run.value.prEnd := by simp
  rw [whole,List.take_of_length_le size.le] at pending
  -- The rest of the chunk fits behind what is held.
  have fits : run.value.lineS+(raw.length-run.value.prEnd) ≤ 255 := by
    have rest := bounded.rest
    rw [← pending,List.length_append,List.length_take,List.length_drop,List.length_map] at rest
    omega
  rw [printfThread_eq nonempty ran passed scanned.counted small]
  refine ⟨⟨_,rfl,?_,?_,?_,rfl⟩,?_,?_⟩
  · rw [Memory.overwrite_length _ _ _ (by rw [size,room,readBufferSize]; omega),room]
  · exact le_trans fits (by decide)
  · rw [← size,Memory.overwrite_take _ _ _ (by omega),pending]
  · intro event member
    obtain member | member := List.mem_append.mp member
    · exact inside event member
    · rw [List.mem_singleton.mp member,Inside,readBufferSize]
      omega
  · rw [reported,contexts_append]
    simp [contexts]

end Chunk

private theorem Bounded.left {first more : List UInt8} (bounded : Bounded (first ++ more)) : Bounded first :=
  ⟨fun member => bounded.clean (List.mem_append_left more member),
    fun line member => bounded.lines line ((Lines.lines_prefix 0x0A first more).subset member),
    Lines.unfinished_length_le first more bounded.lines bounded.rest⟩

private theorem loop_reads (chunks : List (List UInt8)) (sizes : ∀ chunk ∈ chunks, 1 ≤ chunk.length ∧ chunk.length ≤ 256)
    (stream : List UInt8) (reader : Reader) (bounded : Bounded (stream ++ chunks.flatten.map blank))
    (holds : Holds stream reader) :
    lines 0x0A (stream ++ chunks.flatten.map blank) =
        lines 0x0A stream ++ contexts (Traced.loop printfThread reader chunks) ∧
      ∀ event ∈ Traced.loop printfThread reader chunks, Inside event := by
  induction chunks generalizing stream reader with
  | nil => simp [contexts]
  | cons chunk chunks ih =>
    obtain ⟨nonempty,small⟩ := sizes chunk List.mem_cons_self
    rw [List.flatten_cons,List.map_append,← List.append_assoc] at bounded ⊢
    obtain ⟨⟨next,stays,later⟩,inside,reported⟩ := printfThread_reads nonempty small bounded.left holds
    obtain ⟨others,insideOthers⟩ := ih (fun other member => sizes other (List.mem_cons_of_mem _ member)) _ next
      bounded later
    rw [Traced.loop_next _ stays,others,reported,contexts_append,List.append_assoc]
    refine ⟨rfl,?_⟩
    intro event member
    exact (List.mem_append.mp member).elim (inside event) (insideOthers event)

theorem blank_newline (c : UInt8) : blank c = 0x0A ↔ c = 0x0A := by
  unfold blank
  split
  · rename_i zero
    subst zero
    decide
  · rfl

private theorem blank_clean (cells : List UInt8) : 0 ∉ cells.map blank := by
  intro member
  obtain ⟨c,_,zero⟩ := List.mem_map.mp member
  unfold blank at zero
  split at zero
  · exact absurd zero (by decide)
  · contradiction

/-- However the stream is cut into chunks, `tty_context_handle` gets its complete lines,
each once and in order, and no store leaves `line_buffer`. -/
theorem printfThread_lines (chunks : List (List UInt8))
    (sizes : ∀ chunk ∈ chunks, 1 ≤ chunk.length ∧ chunk.length ≤ 256)
    (short : ∀ line ∈ lines 0x0A chunks.flatten, line.length ≤ 255)
    (rest : (unfinished 0x0A chunks.flatten).length ≤ 255) :
    contexts (Traced.loop printfThread Reader.start chunks) = (lines 0x0A chunks.flatten).map (List.map blank) ∧
      ∀ event ∈ Traced.loop printfThread Reader.start chunks, Inside event := by
  have cut := Lines.split_map blank blank_newline chunks.flatten
  have mappedLines : lines 0x0A (chunks.flatten.map blank) = (lines 0x0A chunks.flatten).map (List.map blank) :=
    congrArg Prod.fst cut
  have mappedRest : unfinished 0x0A (chunks.flatten.map blank) = (unfinished 0x0A chunks.flatten).map blank :=
    congrArg Prod.snd cut
  have bounded : Bounded (chunks.flatten.map blank) := by
    refine ⟨blank_clean _,?_,by rw [mappedRest,List.length_map]; exact rest⟩
    rw [mappedLines,List.forall_mem_map]
    simpa using short
  have start : Holds [] Reader.start :=
    ⟨List.length_replicate,Nat.zero_le _,rfl,rfl⟩
  obtain ⟨reported,inside⟩ := loop_reads chunks sizes [] Reader.start bounded start
  rw [← mappedLines]
  exact ⟨reported.symm,inside⟩

/-- `ab`, a newline, a NUL and `c` and a newline, in three chunks. -/
theorem printfThread_three :
    contexts (Traced.loop printfThread Reader.start [[0x61],[0x62,0x0A,0],[0x63,0x0A]]) =
        [[0x61,0x62,0x0A],[0x20,0x63,0x0A]] ∧
      ∀ event ∈ Traced.loop printfThread Reader.start [[0x61],[0x62,0x0A,0],[0x63,0x0A]], Inside event :=
  printfThread_lines [[0x61],[0x62,0x0A,0],[0x63,0x0A]] (by decide) (by decide) (by decide)

end Libsme.Serial
