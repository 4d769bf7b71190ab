import Libsme.Library.Memory
import Libsme.Semantics.Riff

/-! test_wavefile of audio.c. A buffer is the list of the bytes that it holds, so that the
moves to its front drop what was before; a file is the list of the bytes still to be read,
and a program that exits has no result. -/
namespace Libsme.Audio
open Positional Semantics
open Memory (fetch)
open Semantics.Rfc4648 (ascii)

/-- The formats that test_wavefile chooses; the argument says whether it is big-endian. -/
inductive PcmFormat where
  | u8
  | s16 (big : Bool)
  | s24In3 (big : Bool)
  | s24 (big : Bool)
  | s32 (big : Bool)
  | float (big : Bool)
deriving DecidableEq

structure Hwparams where
  format : PcmFormat
  channels : Nat
  rate : Nat
  sounds : 0 < channels

def safeRead (file : List UInt8) (count : Nat) : List UInt8 × List UInt8 := (file.take count,file.drop count)

/-- TO_CPU_SHORT and TO_CPU_INT on a little-endian machine. -/
def toCpu (bytes : List UInt8) (be : Bool) : Nat :=
  if be then littleEndianValue bytes.reverse else littleEndianValue bytes

structure Reader where
  buffer : List UInt8
  file : List UInt8

/-- Exits where the file ends too early. -/
def testWavefileRead (reader : Reader) (reqsize : Nat) : Option Reader :=
  if reader.buffer.length ≥ reqsize then some reader
  else
    let (read,file) := safeRead reader.file (reqsize-reader.buffer.length)
    if read.length ≠ reqsize-reader.buffer.length then none else some ⟨reader.buffer ++ read,file⟩

def Reader.move (reader : Reader) (len : Nat) : Reader := {reader with buffer := reader.buffer.drop len}

def pad (len : Nat) : Nat := (len+len%2)%2^32

/-- The loops that look for a chunk: the length in its header, and the reader at its body.
Each turn takes a header of eight bytes, so that the file bounds the number of turns. -/
def seekChunk (wanted : List UInt8) (bigEndian : Bool) : Nat → Reader → Option (Nat × Reader)
  | 0, _ => none
  | turns+1, reader => do
    let reader ← testWavefileRead reader 8
    let type := fetch reader.buffer 0 4
    let len := toCpu (fetch reader.buffer 4 4) bigEndian
    let reader := reader.move 8
    if type = wanted then pure (len,reader)
    else do
      let reader ← testWavefileRead reader (pad len)
      seekChunk wanted bigEndian turns (reader.move (pad len))

def wavFmtPcm : Nat := 1
def wavFmtIeeeFloat : Nat := 3
def wavFmtExtensible : Nat := 0xFFFE
def wavGuidTag : List UInt8 := [0,0,0,0,0x10,0,0x80,0,0,0xAA,0,0x38,0x9B,0x71]

def pcmFormat (bigEndian : Bool) (format channels bitPSpl bytePSpl : Nat) : Option PcmFormat :=
  match bitPSpl with
  | 8 => some .u8
  | 16 => some (.s16 bigEndian)
  | 24 =>
    match bytePSpl/channels with
    | 3 => some (.s24In3 bigEndian)
    | 4 => some (.s24 bigEndian)
    | _ => none
  | 32 => if format = wavFmtPcm then some (.s32 bigEndian) else some (.float bigEndian)
  | _ => none

/-- The body of the `fmt ` chunk; where it is not supported the program exits. -/
def testFmt (bigEndian : Bool) (len : Nat) (buffer : List UInt8) : Option Hwparams := do
  let format := toCpu (fetch buffer 0 2) bigEndian
  let format ←
    if format = wavFmtExtensible then
      if len < 40 then none
      else if fetch buffer 26 14 ≠ wavGuidTag then none
      else some (toCpu (fetch buffer 24 2) bigEndian)
    else some format
  if format ≠ wavFmtPcm ∧ format ≠ wavFmtIeeeFloat then none
  else do
    let channels := toCpu (fetch buffer 2 2) bigEndian
    if silent : channels < 1 then none
    else do
      let native ← pcmFormat bigEndian format channels (toCpu (fetch buffer 14 2) bigEndian)
        (toCpu (fetch buffer 12 2) bigEndian)
      pure ⟨native,channels,toCpu (fetch buffer 4 4) bigEndian,Nat.not_lt.mp silent⟩

/-- What a call leaves: the bytes it has read too many and copies to the front of the
caller's buffer, the rest of the file, the parameters of the device and the length of the data. -/
structure Wavefile where
  leftover : List UInt8
  file : List UInt8
  hwparams : Hwparams
  pbrecCount : Nat

/-- No result is an exit, and `some none` the result -1. -/
def testWavefile (buffer file : List UInt8) (pbrecCount : Nat) : Option (Option Wavefile) :=
  if buffer.length < 12 then some none
  else if fetch buffer 0 4 ≠ ascii "RIFF" ∧ fetch buffer 0 4 ≠ ascii "RIFX" then some none
  else if fetch buffer 8 4 ≠ ascii "WAVE" then some none
  else do
    let bigEndian := decide (fetch buffer 0 4 ≠ ascii "RIFF")
    let turns := buffer.length+file.length
    let (len,reader) ← seekChunk (ascii "fmt ") bigEndian turns ⟨buffer.drop 12,file⟩
    let len := pad len
    if len < 16 then none
    else do
      let reader ← testWavefileRead reader len
      let hwparams ← testFmt bigEndian len reader.buffer
      let (len,reader) ← seekChunk (ascii "data") bigEndian turns (reader.move len)
      let pbrecCount := if len < pbrecCount ∧ len < 0x7FFFFFFE then len else pbrecCount
      pure (some ⟨reader.buffer,reader.file,hwparams,pbrecCount⟩)

/-- test_wavefile behind the header. -/
def testChunks (bigEndian : Bool) (turns pbrecCount : Nat) (reader : Reader) : Option (Option Wavefile) := do
  let (len,reader) ← seekChunk (ascii "fmt ") bigEndian turns reader
  if pad len < 16 then none
  else do
    let reader ← testWavefileRead reader (pad len)
    let hwparams ← testFmt bigEndian (pad len) reader.buffer
    let (len,reader) ← seekChunk (ascii "data") bigEndian turns (reader.move (pad len))
    let pbrecCount := if len < pbrecCount ∧ len < 0x7FFFFFFE then len else pbrecCount
    pure (some ⟨reader.buffer,reader.file,hwparams,pbrecCount⟩)

def Reader.stream (reader : Reader) : List UInt8 := reader.buffer ++ reader.file

def Reader.of (stream : List UInt8) (held : Nat) : Reader := ⟨stream.take held,stream.drop held⟩

theorem testWavefileRead_of (stream : List UInt8) {held : Nat} (reqsize : Nat) (inside : held ≤ stream.length) :
    testWavefileRead (.of stream held) reqsize =
      if reqsize ≤ stream.length then some (.of stream (max held reqsize)) else none := by
  have length : (Reader.of stream held).buffer.length = held := List.length_take_of_le inside
  rw [testWavefileRead,length]
  rcases Nat.le_total reqsize held with enough | more
  · rw [if_pos enough,if_pos (enough.trans inside),Nat.max_eq_left enough]
  · by_cases same : held ≥ reqsize
    · rw [if_pos same,if_pos (same.trans inside),Nat.max_eq_left same]
    rw [if_neg same,Nat.max_eq_right more]
    have left : ((stream.drop held).take (reqsize-held)).length = min (reqsize-held) (stream.length-held) := by
      rw [List.length_take,List.length_drop]
    simp only [safeRead,Reader.of,left]
    by_cases there : reqsize ≤ stream.length
    · rw [if_neg (by omega),if_pos there,← List.take_add,List.drop_drop,Nat.add_sub_cancel' more]
    · rw [if_pos (by omega),if_neg there]

theorem move_of (stream : List UInt8) (held len : Nat) (inside : len ≤ held) :
    (Reader.of stream held).move len = .of (stream.drop len) (held-len) := by
  simp only [Reader.move,Reader.of,List.drop_take,List.drop_drop,Nat.add_sub_cancel' inside]

theorem of_stream (reader : Reader) : reader = .of reader.stream reader.buffer.length := by
  rw [Reader.of,Reader.stream,List.take_left,List.drop_left]

theorem testWavefileRead_split {reader : Reader} {front rest : List UInt8}
    (split : reader.stream = front ++ rest) : ∃ next : Reader,
      testWavefileRead reader front.length = some next ∧ (∃ more, next.buffer = front ++ more) ∧
      (next.move front.length).stream = rest ∧
      (next.move front.length).buffer.length = reader.buffer.length-front.length := by
  obtain ⟨held,is_held⟩ : ∃ held, held = reader.buffer.length := ⟨_,rfl⟩
  have inside : held ≤ reader.stream.length := by
    rw [is_held,Reader.stream,List.length_append]
    exact Nat.le_add_right _ _
  have there : front.length ≤ reader.stream.length := by
    rw [split,List.length_append]
    exact Nat.le_add_right _ _
  have read := testWavefileRead_of reader.stream front.length inside
  have moved := move_of reader.stream (max held front.length) front.length (Nat.le_max_right _ _)
  rw [is_held,← of_stream,if_pos there] at read
  rw [← is_held] at read ⊢
  refine ⟨_,read,⟨rest.take (max held front.length-front.length),?_⟩,?_,?_⟩
  · rw [Reader.of,split,List.take_append,List.take_of_length_le (Nat.le_max_right _ _)]
  · rw [moved,split,List.drop_left,Reader.of,Reader.stream,List.take_append_drop]
  · rw [moved,Reader.of,List.length_take_of_le (by rw [List.length_drop]; omega)]
    omega

theorem toCpu_field (big : Bool) {width number : Nat} (bound : number < 256^width) :
    toCpu (Riff.field big width number) big = number := by
  cases big with
  | true =>
    rw [toCpu,if_pos rfl,Riff.field,if_pos rfl,littleEndianValue_reverse,value_bigEndian bound]
  | false => exact littleEndianValue_littleEndian bound

theorem seekChunk_header {wanted id : List UInt8} {big : Bool} {turns number : Nat} {reader : Reader}
    {rest : List UInt8} (named : id.length = 4) (bound : number < 2^32)
    (split : reader.stream = id ++ (Riff.field big 4 number ++ rest)) : ∃ next : Reader,
      next.stream = rest ∧ next.buffer.length = reader.buffer.length-8 ∧
      seekChunk wanted big (turns+1) reader =
        if id = wanted then some (number,next)
        else (testWavefileRead next (pad number)).bind fun reader =>
          seekChunk wanted big turns (reader.move (pad number)) := by
  have header : (id ++ Riff.field big 4 number).length = 8 := by
    rw [List.length_append,named,Riff.field_length]
  rw [← List.append_assoc] at split
  obtain ⟨next,read,⟨more,buffer⟩,stream,length⟩ := testWavefileRead_split split
  rw [header] at read stream length
  rw [List.append_assoc] at buffer
  have start : next.buffer = [] ++ (id ++ (Riff.field big 4 number ++ more)) := buffer
  have type : fetch next.buffer 0 4 = id := Memory.fetch_of_split start List.length_nil named
  have len : toCpu (fetch next.buffer 4 4) big = number := by
    rw [Memory.fetch_of_split buffer named (Riff.field_length big 4 number)]
    exact toCpu_field big bound
  refine ⟨next.move 8,stream,length,?_⟩
  rw [seekChunk,read]
  simp only [Option.bind_eq_bind,Option.bind_some,type,len]
  rfl

theorem pad_body {body rest : List UInt8} (padded : rest.length = body.length%2) (bound : body.length+1 < 2^32) :
    pad body.length = (body ++ rest).length := by
  rw [List.length_append,padded,pad]
  apply Nat.mod_eq_of_lt
  omega

theorem seekChunk_skip {wanted : List UInt8} {big : Bool} {turns : Nat} {reader : Reader} {chunk : Riff.Chunk}
    {rest : List UInt8} (other : chunk.id ≠ wanted) (bound : chunk.body.length+1 < 2^32)
    (split : reader.stream = chunk.bytes big ++ rest) : ∃ next : Reader,
      next.stream = rest ∧ next.buffer.length ≤ reader.buffer.length-8 ∧
      seekChunk wanted big (turns+1) reader = seekChunk wanted big turns next := by
  have parts : reader.stream =
      chunk.id ++ (Riff.field big 4 chunk.body.length ++ ((chunk.body ++ chunk.pad) ++ rest)) := by
    rw [split,Riff.Chunk.bytes]
    simp
  obtain ⟨inner,stream,length,turn⟩ :=
    @seekChunk_header wanted _ big turns _ _ _ chunk.named (Nat.lt_of_succ_lt bound) parts
  obtain ⟨next,read,-,rest_eq,shorter⟩ := testWavefileRead_split stream
  rw [← pad_body chunk.padded bound] at read rest_eq shorter
  refine ⟨next.move (pad chunk.body.length),rest_eq,by omega,?_⟩
  rw [turn,if_neg other,read]
  rfl

theorem seekChunk_found {wanted : List UInt8} {big : Bool} {turns number : Nat} {reader : Reader}
    {chunks : List Riff.Chunk} {rest : List UInt8} (named : wanted.length = 4) (bound : number < 2^32)
    (others : ∀ chunk ∈ chunks, chunk.id ≠ wanted ∧ chunk.body.length+1 < 2^32) (enough : chunks.length < turns)
    (split : reader.stream =
      chunks.flatMap (Riff.Chunk.bytes big) ++ (wanted ++ (Riff.field big 4 number ++ rest))) :
    ∃ next : Reader, seekChunk wanted big turns reader = some (number,next) ∧ next.stream = rest ∧
      next.buffer.length ≤ reader.buffer.length-8 := by
  obtain ⟨turns,rfl⟩ := Nat.exists_eq_succ_of_ne_zero (Nat.ne_zero_of_lt enough)
  induction chunks generalizing turns reader with
  | nil =>
    obtain ⟨next,stream,length,turn⟩ := @seekChunk_header wanted _ big turns _ _ _ named bound split
    rw [if_pos rfl] at turn
    exact ⟨next,turn,stream,Nat.le_of_eq length⟩
  | cons chunk chunks ih =>
    rw [List.flatMap_cons,List.append_assoc] at split
    obtain ⟨other,small⟩ := others chunk List.mem_cons_self
    obtain ⟨next,stream,shorter,turn⟩ := @seekChunk_skip wanted big turns _ _ _ other small split
    obtain ⟨turns,rfl⟩ := Nat.exists_eq_succ_of_ne_zero (by simp at enough; omega : turns ≠ 0)
    obtain ⟨last,found,rest_eq,left⟩ := ih (fun other member => others other (List.mem_cons_of_mem _ member))
      stream turns (by simpa using enough)
    exact ⟨last,turn.trans found,rest_eq,by omega⟩

/-- The format for a sample; what is kept as integers in 32 bits may also be a float. -/
def pcmFormatOf (big : Bool) (format : Riff.Format) : PcmFormat :=
  match format.sample with
  | .bits8 => .u8
  | .bits16 => .s16 big
  | .bits24 => .s24In3 big
  | .bits24In32 => .s24 big
  | .bits32 => if format.float then .float big else .s32 big

def hwparamsOf (big : Bool) (format : Riff.Format) : Hwparams :=
  ⟨pcmFormatOf big format,format.channels,format.rate,format.sounds⟩

theorem pcmFormat_eq (big : Bool) (format : Riff.Format) :
    pcmFormat big format.tag format.channels format.sample.bits format.frameSize =
      some (pcmFormatOf big format) := by
  have sounds := format.sounds
  unfold pcmFormatOf Riff.Format.frameSize
  cases sample : format.sample with
  | bits8 => rfl
  | bits16 => rfl
  | bits24 => simp [pcmFormat,Riff.Sample.bits,Riff.Sample.size,Nat.mul_div_cancel_left 3 sounds]
  | bits24In32 => simp [pcmFormat,Riff.Sample.bits,Riff.Sample.size,Nat.mul_div_cancel_left 4 sounds]
  | bits32 =>
    cases float : format.float with
    | true => simp [pcmFormat,Riff.Sample.bits,Riff.Format.tag,float,wavFmtPcm]
    | false => simp [pcmFormat,Riff.Sample.bits,Riff.Format.tag,float,wavFmtPcm]

theorem toCpu_fetch {big : Bool} {memory front rest : List UInt8} {start width number : Nat}
    (split : memory = front ++ (Riff.field big width number ++ rest)) (begins : front.length = start)
    (bound : number < 256^width) : toCpu (fetch memory start width) big = number := by
  rw [Memory.fetch_of_split split begins (Riff.field_length big width number)]
  exact toCpu_field big bound

section Fields
variable (big : Bool) (format : Riff.Format) (rest : List UInt8)

theorem body_fields : ∃ tail,
    format.body big ++ rest = Riff.field big 2 (if format.extension.isSome then 0xFFFE else format.tag) ++
      (Riff.field big 2 format.channels ++ (Riff.field big 4 format.rate ++ (Riff.field big 4 format.byteRate ++
        (Riff.field big 2 format.frameSize ++ (Riff.field big 2 format.sample.bits ++ tail))))) := by
  simp only [Riff.Format.body,List.append_assoc]
  exact ⟨_,rfl⟩

theorem tag_lt : format.tag < 256^2 := by
  unfold Riff.Format.tag
  split <;> decide

theorem body_format : toCpu (fetch (format.body big ++ rest) 0 2) big =
    if format.extension.isSome then 0xFFFE else format.tag := by
  obtain ⟨tail,split⟩ := body_fields big format rest
  refine toCpu_fetch (split.trans (List.nil_append _).symm) List.length_nil ?_
  by_cases extended : format.extension.isSome = true
  · rw [if_pos extended]
    decide
  · rw [if_neg extended]
    exact tag_lt format

theorem body_channels : toCpu (fetch (format.body big ++ rest) 2 2) big = format.channels := by
  obtain ⟨tail,split⟩ := body_fields big format rest
  refine toCpu_fetch split (Riff.field_length _ _ _) ?_
  have aligned := format.aligned
  have size : 0 < format.sample.size := by cases format.sample <;> decide
  exact Nat.lt_of_le_of_lt (Nat.le_mul_of_pos_right _ size) aligned

theorem body_rate : toCpu (fetch (format.body big ++ rest) 4 4) big = format.rate := by
  obtain ⟨tail,split⟩ := body_fields big format rest
  rw [← List.append_assoc] at split
  refine toCpu_fetch split ?_ format.rated
  simp

theorem body_bytePSpl : toCpu (fetch (format.body big ++ rest) 12 2) big = format.frameSize := by
  obtain ⟨tail,split⟩ := body_fields big format rest
  rw [← List.append_assoc,← List.append_assoc,← List.append_assoc] at split
  refine toCpu_fetch split ?_ format.aligned
  simp

theorem body_bitPSpl : toCpu (fetch (format.body big ++ rest) 14 2) big = format.sample.bits := by
  obtain ⟨tail,split⟩ := body_fields big format rest
  rw [← List.append_assoc,← List.append_assoc,← List.append_assoc,← List.append_assoc] at split
  refine toCpu_fetch split ?_ ?_
  · simp
  · cases format.sample <;> decide

theorem body_extension {bytes : List UInt8} (extended : format.extension = some bytes) :
    40 ≤ (format.body big).length ∧ fetch (format.body big ++ rest) 26 14 = wavGuidTag ∧
      toCpu (fetch (format.body big ++ rest) 24 2) big = format.tag := by
  have eight := format.extends8 bytes extended
  have guid : wavGuidTag.length = 14 := rfl
  have split : format.body big ++ rest = (Riff.field big 2 0xFFFE ++ Riff.field big 2 format.channels ++
      Riff.field big 4 format.rate ++ Riff.field big 4 format.byteRate ++ Riff.field big 2 format.frameSize ++
      Riff.field big 2 format.sample.bits ++ bytes) ++
      (Riff.field big 2 format.tag ++ (wavGuidTag ++ (format.extra ++ rest))) := by
    simp [Riff.Format.body,extended,wavGuidTag,Riff.guidTag]
  refine ⟨?_,?_,toCpu_fetch split (by simp [eight]) (tag_lt format)⟩
  · simp [Riff.Format.body,extended,Riff.guidTag,eight]
    omega
  · rw [← List.append_assoc] at split
    exact Memory.fetch_of_split split (by simp [eight]) guid

theorem testFmt_format {len : Nat} (length : (format.body big).length ≤ len) :
    testFmt big len (format.body big ++ rest) = some (hwparamsOf big format) := by
  have known : ¬(format.tag ≠ wavFmtPcm ∧ format.tag ≠ wavFmtIeeeFloat) := by
    unfold Riff.Format.tag
    split <;> decide
  have some_channel : ¬format.channels < 1 := Nat.not_lt.mpr format.sounds
  have plain : format.tag ≠ wavFmtExtensible := by
    unfold Riff.Format.tag
    split <;> decide
  cases extended : format.extension with
  | none =>
    simp only [testFmt,body_format,body_channels,body_rate,body_bytePSpl,body_bitPSpl,extended,
      Option.isSome_none,Bool.false_eq_true,if_false,if_neg plain,if_neg known,dif_neg some_channel,pcmFormat_eq,
      Option.bind_eq_bind,Option.bind_some]
    rfl
  | some bytes =>
    obtain ⟨enough,guid,tag⟩ := body_extension big format rest extended
    have long : ¬len < 40 := by omega
    simp only [testFmt,body_format,body_channels,body_rate,body_bytePSpl,body_bitPSpl,extended,guid,tag,
      Option.isSome_some,if_true,wavFmtExtensible,if_neg long,if_neg known,dif_neg some_channel,pcmFormat_eq,
      Option.bind_eq_bind,Option.bind_some,ne_eq,not_true_eq_false,if_false]
    rfl

end Fields

/-- The padded bodies of the `fmt ` chunks that can be played: PCM or floating-point
numbers, some channels, and samples of 8, 16, 24 (in 3 or 4 bytes) or 32 bits. -/
structure Supported (big : Bool) (body : List UInt8) : Prop where
  sized : 16 ≤ body.length
  tagged : Riff.number big body 0 2 = 1 ∨ Riff.number big body 0 2 = 3 ∨
    (Riff.number big body 0 2 = 0xFFFE ∧ 40 ≤ body.length ∧ (body.drop 26).take 14 = Riff.guidTag ∧
      (Riff.number big body 24 2 = 1 ∨ Riff.number big body 24 2 = 3))
  sounds : 0 < Riff.number big body 2 2
  sampled : Riff.number big body 14 2 = 8 ∨ Riff.number big body 14 2 = 16 ∨ Riff.number big body 14 2 = 32 ∨
    (Riff.number big body 14 2 = 24 ∧ (Riff.number big body 12 2/Riff.number big body 2 2 = 3 ∨
      Riff.number big body 12 2/Riff.number big body 2 2 = 4))

theorem toCpu_number (big : Bool) {body : List UInt8} {start width : Nat} (inside : start+width ≤ body.length) :
    toCpu (fetch body start width) big = Riff.number big body start width := by
  rw [Memory.fetch_eq_take_drop _ _ _ inside,toCpu,Riff.number]
  cases big <;> rfl

theorem pcmFormat_isSome_iff (big : Bool) (format channels bits frame : Nat) :
    (pcmFormat big format channels bits frame).isSome ↔
      bits = 8 ∨ bits = 16 ∨ bits = 32 ∨ (bits = 24 ∧ (frame/channels = 3 ∨ frame/channels = 4)) := by
  unfold pcmFormat
  split
  · simp
  · simp
  · split <;> simp_all
  · split <;> simp
  · simp_all

/-- What testFmt reads of a body; the last two only in the extensible form. -/
structure FmtFields where
  format : Nat
  channels : Nat
  rate : Nat
  bytePSpl : Nat
  bitPSpl : Nat
  guidFormat : Nat
  guidTag : List UInt8

def FmtFields.read (big : Bool) (buffer : List UInt8) : FmtFields where
  format := toCpu (fetch buffer 0 2) big
  channels := toCpu (fetch buffer 2 2) big
  rate := toCpu (fetch buffer 4 4) big
  bytePSpl := toCpu (fetch buffer 12 2) big
  bitPSpl := toCpu (fetch buffer 14 2) big
  guidFormat := toCpu (fetch buffer 24 2) big
  guidTag := fetch buffer 26 14

def FmtFields.tag (len : Nat) (fields : FmtFields) : Option Nat :=
  if fields.format = wavFmtExtensible then
    if len < 40 then none
    else if fields.guidTag ≠ wavGuidTag then none
    else some fields.guidFormat
  else some fields.format

def FmtFields.params (big : Bool) (fields : FmtFields) (format : Nat) : Option Hwparams :=
  if format ≠ wavFmtPcm ∧ format ≠ wavFmtIeeeFloat then none
  else if silent : fields.channels < 1 then none
  else do
    let native ← pcmFormat big format fields.channels fields.bitPSpl fields.bytePSpl
    pure ⟨native,fields.channels,fields.rate,Nat.not_lt.mp silent⟩

theorem testFmt_fields (big : Bool) (len : Nat) (buffer : List UInt8) : testFmt big len buffer =
    ((FmtFields.read big buffer).tag len).bind ((FmtFields.read big buffer).params big) := by
  unfold testFmt FmtFields.tag
  by_cases extended : toCpu (fetch buffer 0 2) big = wavFmtExtensible
  · by_cases short : len < 40
    · simp [FmtFields.read,extended,short]
    · by_cases guid : fetch buffer 26 14 ≠ wavGuidTag
      · simp [FmtFields.read,extended,short,guid]
      · simp only [FmtFields.read,extended,short,guid,if_true,if_false]
        rfl
  · simp only [FmtFields.read,extended,if_false]
    rfl

theorem testFmt_take (big : Bool) {len : Nat} (sized : 16 ≤ len) (buffer : List UInt8) :
    testFmt big len (buffer.take len) = testFmt big len buffer := by
  have field : ∀ start width, start+width ≤ 16 → fetch (buffer.take len) start width = fetch buffer start width :=
    fun start width inside => Memory.fetch_take buffer (inside.trans sized)
  simp only [testFmt,field 0 2 (by decide),field 2 2 (by decide),field 4 4 (by decide),field 12 2 (by decide),
    field 14 2 (by decide)]
  by_cases short : len < 40
  · simp only [if_pos short]
  · simp only [Memory.fetch_take buffer (by omega : 26+14 ≤ len),Memory.fetch_take buffer (by omega : 24+2 ≤ len)]

theorem FmtFields.params_isSome_iff (big : Bool) (fields : FmtFields) (format : Nat) :
    (fields.params big format).isSome ↔ (format = 1 ∨ format = 3) ∧ 0 < fields.channels ∧
      (fields.bitPSpl = 8 ∨ fields.bitPSpl = 16 ∨ fields.bitPSpl = 32 ∨
        (fields.bitPSpl = 24 ∧ (fields.bytePSpl/fields.channels = 3 ∨ fields.bytePSpl/fields.channels = 4))) := by
  rw [← pcmFormat_isSome_iff big format,FmtFields.params,wavFmtPcm,wavFmtIeeeFloat]
  by_cases other : format ≠ 1 ∧ format ≠ 3
  · rw [if_pos other]
    simp [other.1,other.2]
  · have known : format = 1 ∨ format = 3 := by omega
    rw [if_neg other]
    by_cases silent : fields.channels < 1
    · rw [dif_pos silent]
      simp [Nat.not_lt.mpr (Nat.le_of_lt_succ silent)]
    · rw [dif_neg silent]
      have sounds : 0 < fields.channels := Nat.not_lt.mp silent
      cases pcmFormat big format fields.channels fields.bitPSpl fields.bytePSpl <;> simp [known,sounds]

theorem FmtFields.tag_iff (len : Nat) (fields : FmtFields) (tag : Nat) : fields.tag len = some tag ↔
    (fields.format ≠ 0xFFFE ∧ tag = fields.format) ∨
      (fields.format = 0xFFFE ∧ 40 ≤ len ∧ fields.guidTag = wavGuidTag ∧ tag = fields.guidFormat) := by
  unfold FmtFields.tag wavFmtExtensible
  by_cases extended : fields.format = 0xFFFE
  · by_cases short : len < 40
    · simp [extended,short]
    · by_cases guid : fields.guidTag = wavGuidTag
      · simp [extended,short,guid,Nat.not_lt.mp short,eq_comm]
      · simp [extended,short,guid]
  · simp [extended,eq_comm]

theorem testFmt_isSome_iff (big : Bool) {body : List UInt8} (sized : 16 ≤ body.length) :
    (testFmt big body.length body).isSome ↔ Supported big body := by
  have format : (FmtFields.read big body).format = Riff.number big body 0 2 := toCpu_number big (by omega)
  have channels : (FmtFields.read big body).channels = Riff.number big body 2 2 := toCpu_number big (by omega)
  have frame : (FmtFields.read big body).bytePSpl = Riff.number big body 12 2 := toCpu_number big (by omega)
  have bits : (FmtFields.read big body).bitPSpl = Riff.number big body 14 2 := toCpu_number big (by omega)
  have guidFormat : 40 ≤ body.length → (FmtFields.read big body).guidFormat = Riff.number big body 24 2 :=
    fun long => toCpu_number big (by omega)
  have guidTag : 40 ≤ body.length → (FmtFields.read big body).guidTag = (body.drop 26).take 14 :=
    fun long => Memory.fetch_eq_take_drop _ _ _ (by omega)
  rw [testFmt_fields,Option.isSome_bind,Option.any_eq_true]
  constructor
  · rintro ⟨tag,tagged,params⟩
    obtain ⟨known,sounds,sampled⟩ := (FmtFields.params_isSome_iff big _ tag).mp params
    rw [channels] at sounds
    rw [bits,frame,channels] at sampled
    refine ⟨sized,?_,sounds,sampled⟩
    rw [← format]
    rcases (FmtFields.tag_iff _ _ tag).mp tagged with ⟨plain,rfl⟩ | ⟨extended,long,guid,rfl⟩
    · rcases known with pcm | float
      · exact .inl pcm
      · exact .inr (.inl float)
    · exact .inr (.inr ⟨extended,long,(guidTag long).symm.trans guid,guidFormat long ▸ known⟩)
  · rintro ⟨-,tagged,sounds,sampled⟩
    rw [← channels] at sounds
    rw [← bits,← frame,← channels] at sampled
    rw [← format] at tagged
    obtain ⟨tag,tag_eq,known⟩ : ∃ tag, (FmtFields.read big body).tag body.length = some tag ∧ (tag = 1 ∨ tag = 3) := by
      rcases tagged with pcm | float | ⟨extended,long,guid,known⟩
      · exact ⟨1,(FmtFields.tag_iff _ _ _).mpr (.inl (by omega)),.inl rfl⟩
      · exact ⟨3,(FmtFields.tag_iff _ _ _).mpr (.inl (by omega)),.inr rfl⟩
      · exact ⟨_,(FmtFields.tag_iff _ _ _).mpr (.inr ⟨extended,long,(guidTag long).trans guid,guidFormat long |>.symm⟩),known⟩
    exact ⟨tag,tag_eq,(FmtFields.params_isSome_iff big _ tag).mpr ⟨known,sounds,sampled⟩⟩

section Whole
variable (wav : Riff.Wav)

theorem body_length (big : Bool) (format : Riff.Format) : 16 ≤ (format.body big).length := by
  simp only [Riff.Format.body,List.length_append,Riff.field_length]
  omega

theorem magic_length (big : Bool) : (Riff.Wav.magic big).length = 4 := by cases big <;> decide

theorem bytes_length : wav.bytes.length = 12+wav.content.length := by
  have wave : (ascii "WAVE").length = 4 := by decide
  simp only [Riff.Wav.bytes,List.length_append,Riff.field_length,magic_length,wave]
  omega

theorem data_le_sound : wav.data.length ≤ wav.sound.length := by
  rw [Riff.Layout.sound,List.length_append]
  exact Nat.le_add_right _ _

theorem magic_known (big : Bool) :
    ¬(Riff.Wav.magic big ≠ ascii "RIFF" ∧ Riff.Wav.magic big ≠ ascii "RIFX") ∧
      decide (Riff.Wav.magic big ≠ ascii "RIFF") = big := by
  cases big <;> decide

section Header
variable {big : Bool} {riffLength : Nat} {content head file : List UInt8}

theorem header_fetched (split : Riff.Wav.magic big ++ (Riff.field big 4 riffLength ++ (ascii "WAVE" ++ content)) =
    head ++ file) (length : 12 ≤ head.length) :
    fetch head 0 4 = Riff.Wav.magic big ∧ fetch head 8 4 = ascii "WAVE" ∧ head.drop 12 ++ file = content := by
  have wave : (ascii "WAVE").length = 4 := by decide
  refine ⟨?_,?_,?_⟩
  · rw [← Memory.fetch_prefix head file 0 4 (by omega),← split]
    exact Memory.fetch_of_split (List.nil_append _).symm List.length_nil (magic_length big)
  · rw [← Memory.fetch_prefix head file 8 4 (by omega),← split,← List.append_assoc]
    exact Memory.fetch_of_split rfl (by simp [magic_length]) wave
  · rw [← List.drop_append_of_le_length length,← split,← List.append_assoc,← List.append_assoc]
    exact List.drop_left' (by simp [magic_length,wave])

theorem testWavefile_header (split : Riff.Wav.magic big ++ (Riff.field big 4 riffLength ++ (ascii "WAVE" ++ content)) =
    head ++ file) (length : 12 ≤ head.length) (pbrecCount : Nat) : testWavefile head file pbrecCount =
      testChunks big (head.length+file.length) pbrecCount ⟨head.drop 12,file⟩ := by
  obtain ⟨magic,wave,-⟩ := header_fetched split length
  obtain ⟨known,endian⟩ := magic_known big
  rw [testWavefile,magic,wave,endian,if_neg (Nat.not_lt.mpr length),if_neg known,if_neg (not_not.mpr rfl)]
  rfl

end Header

section Opening
variable {opening : Riff.Opening} {head file rest : List UInt8}

theorem opening_split (opening : Riff.Opening) (rest : List UInt8) :
    opening.content rest = opening.before.flatMap (Riff.Chunk.bytes opening.big) ++
      (Riff.fmtId ++ (Riff.field opening.big 4 opening.format.body.length ++
        ((opening.format.body ++ opening.format.pad) ++ (opening.between.flatMap (Riff.Chunk.bytes opening.big) ++
          (Riff.dataId ++ (Riff.field opening.big 4 opening.dataLength ++ rest)))))) := by
  rw [Riff.Opening.content,Riff.Chunk.bytes,opening.formatNamed]
  simp only [List.append_assoc]

theorem short_body {chunk : Riff.Chunk} (short : (chunk.body ++ chunk.pad).length < 2^32) :
    chunk.body.length+1 < 2^32 := by
  have padded := chunk.padded
  rw [List.length_append] at short
  omega

/-- test_wavefile stops at the sound of a file whose format it supports, wherever the file
is cut into what it is given and what it reads. -/
theorem testWavefile_opening {hwparams : Hwparams} (split : opening.bytes rest = head ++ file) (length : 12 ≤ head.length)
    (supported : 16 ≤ (opening.format.body ++ opening.format.pad).length ∧
      ∀ more, testFmt opening.big (opening.format.body ++ opening.format.pad).length
        (opening.format.body ++ opening.format.pad ++ more) = some hwparams) (pbrecCount : Nat) :
    ∃ leftover unread count, testWavefile head file pbrecCount = some (some ⟨leftover,unread,hwparams,count⟩) ∧
      leftover ++ unread = rest ∧
      leftover.length ≤ head.length-(28+(opening.format.body ++ opening.format.pad).length) := by
  have content := (header_fetched split length).2.2
  have parts := opening_split opening rest
  have before := Riff.chunks_count opening.big opening.before
  have between := Riff.chunks_count opening.big opening.between
  have turns : (head.drop 12).length+file.length = (opening.content rest).length := by
    rw [← content,List.length_append]
  have named : Riff.fmtId.length = 4 ∧ Riff.dataId.length = 4 := by decide
  rw [List.length_drop,parts] at turns
  simp only [List.length_append,Riff.field_length] at turns
  have formatShort := short_body (opening.short opening.format (by simp))
  have padded := pad_body opening.format.padded formatShort
  have others : ∀ chunk ∈ opening.before, chunk.id ≠ Riff.fmtId ∧ chunk.body.length+1 < 2^32 := fun chunk member =>
    ⟨opening.foreign chunk member,short_body (opening.short chunk (List.mem_append_left _ member))⟩
  have later : ∀ chunk ∈ opening.between, chunk.id ≠ Riff.dataId ∧ chunk.body.length+1 < 2^32 := fun chunk member =>
    ⟨opening.other chunk member,short_body (opening.short chunk (by simp [member]))⟩
  -- the `fmt ` chunk
  have stream : Reader.stream ⟨head.drop 12,file⟩ = _ := content.trans parts
  obtain ⟨reader,format,body,ahead⟩ := seekChunk_found named.1 (Nat.lt_of_succ_lt formatShort) others
    (by omega : opening.before.length < head.length+file.length) stream
  obtain ⟨next,read,⟨more,buffer⟩,remaining,left⟩ := testWavefileRead_split body
  rw [← padded] at read remaining left supported
  have params := supported.2 more
  rw [← buffer] at params
  -- the `data` chunk
  have dataShort := opening.dataShort
  obtain ⟨last,data,stream,fewer⟩ := seekChunk_found named.2 (by omega : opening.dataLength < 2^32) later
    (by omega : opening.between.length < head.length+file.length) remaining
  rw [Riff.fmtId] at format
  rw [Riff.dataId] at data
  rw [List.length_drop] at ahead
  refine ⟨last.buffer,last.file,
    if opening.dataLength < pbrecCount ∧ opening.dataLength < 0x7FFFFFFE then opening.dataLength else pbrecCount,
    ?_,stream,?_⟩
  · rw [testWavefile_header split length,testChunks]
    simp only [format,if_neg (Nat.not_lt.mpr supported.1),read,params,data,Option.bind_eq_bind,Option.bind_some]
    rfl
  · rw [← padded]
    omega

end Opening

/-- test_wavefile finds format and sound of a file, and its reads leave nothing over. -/
theorem testWavefile_wav {wav : Riff.Wav} {head rest : List UInt8} (split : wav.bytes = head ++ rest)
    (length : head.length = 26) (pbrecCount : Nat) :
    ∃ count, testWavefile head rest pbrecCount =
      some (some ⟨[],wav.sound,hwparamsOf wav.big wav.format,count⟩) := by
  have bodySize := body_length wav.big wav.format
  have supported : 16 ≤ (wav.format.body wav.big ++ wav.formatPad).length ∧
      ∀ more, testFmt wav.big (wav.format.body wav.big ++ wav.formatPad).length
        (wav.format.body wav.big ++ wav.formatPad ++ more) = some (hwparamsOf wav.big wav.format) := by
    rw [List.length_append]
    refine ⟨by omega,fun more => ?_⟩
    rw [List.append_assoc]
    exact testFmt_format wav.big wav.format _ (Nat.le_add_right _ _)
  obtain ⟨leftover,unread,count,found,sound,few⟩ := testWavefile_opening (wav.opening_bytes.trans split) (by omega)
    supported pbrecCount
  have format : 16 ≤ (wav.opening.format.body ++ wav.opening.format.pad).length := supported.1
  obtain rfl : leftover = [] := List.length_eq_zero_iff.mp (by omega)
  rw [List.nil_append] at sound
  subst sound
  exact ⟨count,found⟩

end Whole

end Libsme.Audio
