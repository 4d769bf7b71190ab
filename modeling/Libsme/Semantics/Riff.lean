import Libsme.Library.Positional
import Libsme.Semantics.Rfc4648

/-! RIFF/WAVE files: a header and chunks, each with an identifier, the length of its body
and the body, padded to an even length. A `fmt ` chunk states the format of the sound, a
`data` chunk after it holds the sound. Files that start with RIFX are big-endian. -/
namespace Libsme.Semantics.Riff
open Positional
open Rfc4648 (ascii)

def field (big : Bool) (width number : Nat) : List UInt8 :=
  if big then bigEndian width number else littleEndian width number

@[simp] theorem field_length (big : Bool) (width number : Nat) : (field big width number).length = width := by
  cases big <;> simp [field]

def number (big : Bool) (body : List UInt8) (start width : Nat) : Nat :=
  littleEndianValue (if big then ((body.drop start).take width).reverse else (body.drop start).take width)

structure Chunk where
  id : List UInt8
  body : List UInt8
  pad : List UInt8
  named : id.length = 4
  padded : pad.length = body.length%2

def Chunk.bytes (big : Bool) (chunk : Chunk) : List UInt8 :=
  chunk.id ++ (field big 4 chunk.body.length ++ (chunk.body ++ chunk.pad))

def fmtId : List UInt8 := ascii "fmt "
def dataId : List UInt8 := ascii "data"

/-- A sample and the bytes it is kept in. -/
inductive Sample where
  | bits8
  | bits16
  | bits24
  | bits24In32
  | bits32
deriving DecidableEq

def Sample.bits : Sample → Nat
  | .bits8 => 8
  | .bits16 => 16
  | .bits24 | .bits24In32 => 24
  | .bits32 => 32

def Sample.size : Sample → Nat
  | .bits8 => 1
  | .bits16 => 2
  | .bits24 => 3
  | .bits24In32 | .bits32 => 4

/-- The byte that silence consists of: samples of eight bits are unsigned. -/
def Sample.silence : Sample → UInt8
  | .bits8 => 0x80
  | _ => 0

/-- Sound as integers or as floating-point numbers. The extensible form of the chunk keeps
the tag behind eight more bytes, before the fixed rest of an identifier. -/
structure Format where
  float : Bool
  sample : Sample
  channels : Nat
  rate : Nat
  byteRate : Nat
  extension : Option (List UInt8)
  extra : List UInt8
  sounds : 0 < channels
  aligned : channels*sample.size < 2^16
  rated : rate < 2^32
  extends8 : ∀ bytes, extension = some bytes → bytes.length = 8

def Format.tag (format : Format) : Nat := if format.float then 3 else 1

def guidTag : List UInt8 := [0,0,0,0,0x10,0,0x80,0,0,0xAA,0,0x38,0x9B,0x71]

def Format.frameSize (format : Format) : Nat := format.channels*format.sample.size

def Format.body (big : Bool) (format : Format) : List UInt8 :=
  field big 2 (if format.extension.isSome then 0xFFFE else format.tag) ++
    (field big 2 format.channels ++ (field big 4 format.rate ++ (field big 4 format.byteRate ++
      (field big 2 format.frameSize ++ (field big 2 format.sample.bits ++
        ((match format.extension with
          | none => []
          | some bytes => bytes ++ (field big 2 format.tag ++ guidTag)) ++ format.extra))))))

/-- The parts of a file with one `fmt ` chunk and, after it, one `data` chunk of whole
frames; other chunks may stand anywhere. -/
structure Layout where
  big : Bool
  before : List Chunk
  format : Format
  formatPad : List UInt8
  between : List Chunk
  data : List UInt8
  dataPad : List UInt8
  after : List Chunk
  others : ∀ chunk ∈ before ++ (between ++ after), chunk.id ≠ fmtId ∧ chunk.id ≠ dataId
  formatPadded : formatPad.length = (format.body big).length%2
  dataPadded : dataPad.length = data.length%2
  frames : format.frameSize ∣ data.length

namespace Layout
variable (layout : Layout)

def formatChunk : Chunk := ⟨fmtId,layout.format.body layout.big,layout.formatPad,by decide,layout.formatPadded⟩

def chunks (list : List Chunk) : List UInt8 := list.flatMap (Chunk.bytes layout.big)

def sound : List UInt8 := layout.data ++ (layout.dataPad ++ layout.chunks layout.after)

def content : List UInt8 :=
  layout.chunks layout.before ++ (layout.formatChunk.bytes layout.big ++ (layout.chunks layout.between ++
    (dataId ++ (field layout.big 4 layout.data.length ++ layout.sound))))

end Layout

/-- The length in the header counts what follows it. -/
structure Wav extends Layout where
  fits : 4+toLayout.content.length < 2^32

namespace Wav

def magic (big : Bool) : List UInt8 := if big then ascii "RIFX" else ascii "RIFF"

def bytes (wav : Wav) : List UInt8 :=
  magic wav.big ++ (field wav.big 4 (4+wav.content.length) ++ (ascii "WAVE" ++ wav.content))

end Wav

/-- A file up to its sound: chunks, the `fmt ` chunk, more chunks and the header of the
`data` chunk. Padded lengths fit 32 bits; the length in the header of the file is any. -/
structure Opening where
  big : Bool
  riffLength : Nat
  before : List Chunk
  format : Chunk
  between : List Chunk
  dataLength : Nat
  foreign : ∀ chunk ∈ before, chunk.id ≠ fmtId
  formatNamed : format.id = fmtId
  other : ∀ chunk ∈ between, chunk.id ≠ dataId
  short : ∀ chunk ∈ before ++ format::between, (chunk.body ++ chunk.pad).length < 2^32
  dataShort : dataLength+dataLength%2 < 2^32

namespace Opening

def content (opening : Opening) (rest : List UInt8) : List UInt8 :=
  opening.before.flatMap (Chunk.bytes opening.big) ++ (opening.format.bytes opening.big ++
    (opening.between.flatMap (Chunk.bytes opening.big) ++ (dataId ++ (field opening.big 4 opening.dataLength ++ rest))))

/-- The file whose `data` chunk and what follows it are `rest`. -/
def bytes (opening : Opening) (rest : List UInt8) : List UInt8 :=
  Wav.magic opening.big ++ (field opening.big 4 opening.riffLength ++ (ascii "WAVE" ++ opening.content rest))

end Opening

theorem chunk_length (big : Bool) (chunk : Chunk) :
    (chunk.bytes big).length = 8+chunk.body.length+chunk.pad.length := by
  simp only [Chunk.bytes,List.length_append,chunk.named,field_length]
  omega

theorem chunks_bound (big : Bool) {chunks : List Chunk} {chunk : Chunk} (member : chunk ∈ chunks) :
    8+chunk.body.length+chunk.pad.length ≤ (chunks.flatMap (Chunk.bytes big)).length := by
  obtain ⟨front,rest,rfl⟩ := List.append_of_mem member
  have length := chunk_length big chunk
  simp only [List.flatMap_append,List.flatMap_cons,List.length_append]
  omega

theorem chunks_count (big : Bool) (chunks : List Chunk) :
    chunks.length ≤ (chunks.flatMap (Chunk.bytes big)).length := by
  induction chunks with
  | nil => exact Nat.zero_le _
  | cons chunk chunks ih =>
    have length := chunk_length big chunk
    simp only [List.flatMap_cons,List.length_append,List.length_cons]
    omega

theorem Layout.content_length (layout : Layout) : layout.content.length =
    (layout.chunks layout.before).length+(8+(layout.format.body layout.big).length+layout.formatPad.length)+
      (layout.chunks layout.between).length+8+layout.sound.length := by
  have format := chunk_length layout.big layout.formatChunk
  have named : dataId.length = 4 := by decide
  simp only [content,List.length_append,field_length,format,named]
  simp only [formatChunk]
  omega

theorem Wav.chunks_short (wav : Wav) : ∀ chunk ∈ wav.before ++ wav.formatChunk::wav.between,
    (chunk.body ++ chunk.pad).length < 2^32 := by
  intro chunk member
  have total := wav.content_length
  have fits := wav.fits
  rw [List.length_append]
  rcases List.mem_append.mp member with early | later
  · have bound := chunks_bound wav.big early
    rw [Layout.chunks] at total
    omega
  · rcases List.mem_cons.mp later with rfl | late
    · change (wav.format.body wav.big).length+wav.formatPad.length < 2^32
      omega
    · have bound := chunks_bound wav.big late
      rw [Layout.chunks,Layout.chunks] at total
      omega

theorem Wav.data_short (wav : Wav) : wav.data.length+wav.data.length%2 < 2^32 := by
  have total := wav.content_length
  have fits := wav.fits
  have padded := wav.dataPadded
  have sound : wav.sound.length = wav.data.length+(wav.dataPad.length+(wav.chunks wav.after).length) := by
    rw [Layout.sound,List.length_append,List.length_append]
  omega

def Wav.opening (wav : Wav) : Opening where
  big := wav.big
  riffLength := 4+wav.content.length
  before := wav.before
  format := wav.formatChunk
  between := wav.between
  dataLength := wav.data.length
  foreign := fun chunk member => (wav.others chunk (List.mem_append_left _ member)).1
  formatNamed := rfl
  other := fun chunk member => (wav.others chunk (List.mem_append_right _ (List.mem_append_left _ member))).2
  short := wav.chunks_short
  dataShort := wav.data_short

theorem Wav.opening_bytes (wav : Wav) : wav.opening.bytes wav.sound = wav.bytes := rfl

inductive Item where
  | short (number : UInt16)
  | int (number : UInt32)
  | raw (block : List UInt8)

def Item.size : Item → Nat
  | .short _ => 2
  | .int _ => 4
  | .raw block => block.length

def Item.encode (big : Bool) : Item → List UInt8
  | .short number => field big 2 number.toNat
  | .int number => field big 4 number.toNat
  | .raw block => block

def size (items : List Item) : Nat := (items.map Item.size).sum

def encode (big : Bool) (items : List Item) : List UInt8 := items.flatMap (Item.encode big)

@[simp] theorem encode_length (big : Bool) (items : List Item) : (encode big items).length = size items := by
  rw [encode,List.length_flatMap,size]
  congr 1
  apply List.map_congr_left
  intro item _
  cases item <;> simp [Item.encode,Item.size]

structure FmtNumbers where
  format : UInt16
  channels : UInt16
  rate : UInt32
  byteRate : UInt32
  frameSize : UInt16
  bits : UInt16

def FmtNumbers.items (numbers : FmtNumbers) : List Item :=
  [.short numbers.format,.short numbers.channels,.int numbers.rate,.int numbers.byteRate,.short numbers.frameSize,
    .short numbers.bits]

/-- The integers that follow them in the extensible form. -/
structure Extension where
  size : UInt16
  bits : UInt16
  mask : UInt32
  format : UInt16

def Extension.items (extension : Extension) : List Item :=
  [.short extension.size,.short extension.bits,.int extension.mask,.short extension.format]

/-- The padded bodies of `fmt ` chunks: too short for the integers, without those of the
extensible form, where the chunk is not of that form or too short for it, or with them. -/
inductive FmtItems : List Item → Prop where
  | short {items : List Item} (few : size items < 16) : FmtItems items
  | plain (numbers : FmtNumbers) (rest : List Item)
      (other : numbers.format ≠ 0xFFFE ∨ size (numbers.items ++ rest) < 40) : FmtItems (numbers.items ++ rest)
  | extensible (numbers : FmtNumbers) (extension : Extension) (guid : List UInt8) (rest : List Item)
      (guidLength : guid.length = 14) : FmtItems (numbers.items ++ (extension.items ++ .raw guid::rest))

/-- A chunk whose body, with its padding, is made of items. -/
structure ItemChunk where
  id : List UInt8
  length : Nat
  items : List Item
  named : id.length = 4
  padded : size items = length+length%2
  small : size items < 2^32
  formatted : id = fmtId → FmtItems items

def ItemChunk.bytes (big : Bool) (chunk : ItemChunk) : List UInt8 :=
  chunk.id ++ (field big 4 chunk.length ++ encode big chunk.items)

def encodeChunks (big : Bool) (chunks : List ItemChunk) : List UInt8 := chunks.flatMap (ItemChunk.bytes big)

/-- A list of chunks, of whose stream only the first `cut` bytes may be there. -/
structure Wave where
  riffLength : UInt32
  chunks : List ItemChunk
  cut : Nat

def Wave.bytes (big : Bool) (wave : Wave) : List UInt8 :=
  (Wav.magic big ++ (field big 4 wave.riffLength.toNat ++ (ascii "WAVE" ++ encodeChunks big wave.chunks))).take wave.cut

theorem ItemChunk.bytes_length (big : Bool) (chunk : ItemChunk) :
    (chunk.bytes big).length = 8+size chunk.items := by
  simp only [ItemChunk.bytes,List.length_append,chunk.named,field_length,encode_length]
  omega

theorem encodeChunks_length (big : Bool) (chunks : List ItemChunk) :
    (encodeChunks big chunks).length = (chunks.map fun chunk => 8+size chunk.items).sum := by
  rw [encodeChunks,List.length_flatMap]
  congr 1
  exact List.map_congr_left fun chunk _ => chunk.bytes_length big

end Libsme.Semantics.Riff
