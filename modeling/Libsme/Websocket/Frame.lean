import Libsme.Library.Memory
import Libsme.Library.Traced
import Libsme.Semantics.Rfc6455

/-! analyData and packData, the same in main.cpp and main.c. `analyData` logs each
part of the request buffer it reads; `buf` is the whole buffer, whatever `bufLen`
says of it, and `malloc` is taken to succeed. -/
namespace Libsme.Websocket
open Positional Semantics
open Memory (cstr fetch)
open Rfc6455 (lengthField masked masked_masked)

structure Span where
  start : Nat
  size : Nat
deriving DecidableEq

def Span.Inside (bufLen : Int) (span : Span) : Prop := ((span.start+span.size : Nat) : Int) ≤ bufLen

instance (bufLen : Int) (span : Span) : Decidable (span.Inside bufLen) :=
  inferInstanceAs (Decidable (_ ≤ _))

def load (buf : List UInt8) (start size : Nat) : Traced Span (List UInt8) := do
  Traced.emit ⟨start,size⟩
  pure (fetch buf start size)

def loadByte (buf : List UInt8) (i : Nat) : Traced Span UInt8 := do
  Traced.emit ⟨i,1⟩
  pure (buf.getD i 0)

/-- The index is an `int`: past 2^31 it turns negative, which as an unsigned number ends the loop. -/
def unmask (masks payloadData : List UInt8) : List UInt8 :=
  payloadData.mapIdx fun i c => if i < 2^31 then c ^^^ masks.getD (i%4) 0 else c

def copyPayload (buf : List UInt8) (payloadLen : Nat) : Traced Span (List UInt8) :=
  if payloadLen = 126 then do
    let masks ← load buf 4 4
    let high ← loadByte buf 2
    let low ← loadByte buf 3
    let payloadData ← load buf 8 (high.toNat <<< 8 ||| low.toNat)
    pure (unmask masks payloadData)
  else if payloadLen = 127 then do
    let masks ← load buf 10 4
    -- temp[i] = buf[9-i]; memcpy(&n,temp,8) on a little-endian machine
    let temp ← load buf 2 8
    let payloadData ← load buf 14 (littleEndianValue temp.reverse)
    pure (unmask masks payloadData)
  else do
    let masks ← load buf 2 4
    let payloadData ← load buf 6 payloadLen
    pure (unmask masks payloadData)

/-- The result is the block of `payloadLen` bytes at the returned pointer. -/
def analyData (buf : List UInt8) (bufLen : Int) : Traced Span (Option (List UInt8)) :=
  if bufLen < 2 then pure none
  else do
    let first ← loadByte buf 0
    if first &&& 0x80 ≠ 0x80 then pure none
    else do
      let second ← loadByte buf 1
      if second &&& 0x80 ≠ 0x80 then pure none
      else do
        let payloadData ← copyPayload buf (second &&& 0x7F).toNat
        pure (some payloadData)

/-- The frame `packData` allocates and the length it stores through `len`. -/
def packData (message : List UInt8) : Option (List UInt8) × Nat :=
  let n := (cstr message).length
  if n < 126 then (some (0x81::UInt8.ofNat n::cstr message),n+2)
  else if n < 0xFFFF then
    (some (0x81::126::UInt8.ofNat (n >>> 8 &&& 0xFF)::UInt8.ofNat (n &&& 0xFF)::cstr message),n+4)
  else (none,0)

def Rejected (buf : List UInt8) (bufLen : Int) : Prop :=
  bufLen < 2 ∨ buf.getD 0 0 &&& 0x80 ≠ 0x80 ∨ buf.getD 1 0 &&& 0x80 ≠ 0x80

instance (buf : List UInt8) (bufLen : Int) : Decidable (Rejected buf bufLen) :=
  inferInstanceAs (Decidable (_ ∨ _))

def lengthCode (buf : List UInt8) : Nat := (buf.getD 1 0 &&& 0x7F).toNat

def headerSize (buf : List UInt8) : Nat :=
  if lengthCode buf = 126 then 8 else if lengthCode buf = 127 then 14 else 6

/-- The length in the header, whether or not its bytes were received. -/
def declaredLength (buf : List UInt8) : Nat :=
  if lengthCode buf = 126 then value 256 ((fetch buf 2 2).map UInt8.toNat)
  else if lengthCode buf = 127 then value 256 ((fetch buf 2 8).map UInt8.toNat)
  else lengthCode buf

@[simp] theorem loadByte_value (buf : List UInt8) (i : Nat) : (loadByte buf i).value = buf.getD i 0 := rfl
@[simp] theorem loadByte_log (buf : List UInt8) (i : Nat) : (loadByte buf i).log = [⟨i,1⟩] := rfl
@[simp] theorem load_value (buf : List UInt8) (start size : Nat) :
    (load buf start size).value = fetch buf start size := rfl
@[simp] theorem load_log (buf : List UInt8) (start size : Nat) : (load buf start size).log = [⟨start,size⟩] := rfl

@[simp] theorem loadByte_always (P : Span → Prop) (buf : List UInt8) (i : Nat) :
    (loadByte buf i).Always P ↔ P ⟨i,1⟩ := by simp [Traced.Always]
@[simp] theorem load_always (P : Span → Prop) (buf : List UInt8) (start size : Nat) :
    (load buf start size).Always P ↔ P ⟨start,size⟩ := by simp [Traced.Always]

theorem analyData_rejected {buf : List UInt8} {bufLen : Int} (rejected : Rejected buf bufLen) :
    (analyData buf bufLen).value = none := by
  unfold analyData
  by_cases short : bufLen < 2
  · rw [if_pos short]
    rfl
  · rw [if_neg short,Traced.bind_value,loadByte_value]
    by_cases fin : buf.getD 0 0 &&& 0x80 ≠ 0x80
    · rw [if_pos fin]
      rfl
    · have mask := (rejected.resolve_left short).resolve_left fin
      rw [if_neg fin,Traced.bind_value,loadByte_value,if_pos mask]
      rfl

theorem analyData_accepted {buf : List UInt8} {bufLen : Int} (accepted : ¬Rejected buf bufLen) :
    analyData buf bufLen =
      ⟨some (copyPayload buf (lengthCode buf)).value,⟨0,1⟩::⟨1,1⟩::(copyPayload buf (lengthCode buf)).log⟩ := by
  obtain ⟨short,fin,mask⟩ : ¬bufLen < 2 ∧ ¬(buf.getD 0 0 &&& 0x80 ≠ 0x80) ∧ ¬(buf.getD 1 0 &&& 0x80 ≠ 0x80) := by
    simpa only [Rejected,not_or] using accepted
  rw [analyData,if_neg short]
  apply Traced.ext
  · rw [Traced.bind_value,loadByte_value,if_neg fin,Traced.bind_value,loadByte_value,if_neg mask]
    rfl
  · rw [Traced.bind_log,loadByte_value,if_neg fin,Traced.bind_log,loadByte_value,if_neg mask,
      Traced.bind_log,Traced.pure_log,List.append_nil]
    rfl

theorem analyData_null_iff (buf : List UInt8) (bufLen : Int) :
    (analyData buf bufLen).value = none ↔ Rejected buf bufLen := by
  constructor
  · intro null
    by_contra accepted
    rw [analyData_accepted accepted] at null
    exact absurd null (Option.some_ne_none _)
  · exact analyData_rejected

private theorem shortLength_eq (buf : List UInt8) :
    (buf.getD 2 0).toNat <<< 8 ||| (buf.getD 3 0).toNat = value 256 ((fetch buf 2 2).map UInt8.toNat) := by
  have low := (buf.getD 3 0).toNat_lt
  have cells : fetch buf 2 2 = [buf.getD 2 0,buf.getD 3 0] := rfl
  rw [← Nat.shiftLeft_add_eq_or_of_lt low,cells,Nat.shiftLeft_eq]
  simp [value]

theorem copyPayload_value (buf : List UInt8) :
    (copyPayload buf (lengthCode buf)).value =
      unmask (fetch buf (headerSize buf-4) 4) (fetch buf (headerSize buf) (declaredLength buf)) := by
  unfold copyPayload headerSize declaredLength
  by_cases medium : lengthCode buf = 126
  · simp only [if_pos medium,Traced.bind_value,load_value,loadByte_value,Traced.pure_value,shortLength_eq]
  · by_cases long : lengthCode buf = 127
    · simp only [if_neg medium,if_pos long,Traced.bind_value,load_value,Traced.pure_value,littleEndianValue_reverse]
    · simp only [if_neg medium,if_neg long,Traced.bind_value,load_value,Traced.pure_value]

theorem copyPayload_inside_iff (buf : List UInt8) (bufLen : Int) :
    (copyPayload buf (lengthCode buf)).Always (Span.Inside bufLen) ↔
      ((headerSize buf+declaredLength buf : Nat) : Int) ≤ bufLen := by
  unfold copyPayload headerSize declaredLength
  by_cases medium : lengthCode buf = 126
  · simp only [if_pos medium,Traced.always_bind,load_always,loadByte_always,load_value,loadByte_value,
      Traced.always_pure,shortLength_eq,Span.Inside,and_true]
    omega
  · by_cases long : lengthCode buf = 127
    · simp only [if_neg medium,if_pos long,Traced.always_bind,load_always,load_value,Traced.always_pure,
        littleEndianValue_reverse,Span.Inside,and_true]
      omega
    · simp only [if_neg medium,if_neg long,Traced.always_bind,load_always,Traced.always_pure,Span.Inside,and_true]
      omega

/-- The buffer is read past the bytes received exactly when a frame is accepted whose
announced size is larger than what was received. -/
theorem analyData_inside_iff (buf : List UInt8) (bufLen : Int) :
    ((analyData buf bufLen).value = none ∨ (analyData buf bufLen).Always (Span.Inside bufLen)) ↔
      Rejected buf bufLen ∨ ((headerSize buf+declaredLength buf : Nat) : Int) ≤ bufLen := by
  by_cases rejected : Rejected buf bufLen
  · simp [rejected,analyData_rejected rejected]
  · have received : ¬bufLen < 2 := fun short => rejected (Or.inl short)
    have copied := copyPayload_inside_iff buf bufLen
    rw [analyData_accepted rejected]
    simp only [Traced.Always,List.forall_mem_cons] at copied ⊢
    rw [copied]
    simp only [Span.Inside,reduceCtorEq,rejected,false_or]
    omega

theorem analyData_reads_stale :
    ¬((analyData (0x81::0x85::List.replicate 4094 0x41) 2).value = none ∨
      (analyData (0x81::0x85::List.replicate 4094 0x41) 2).Always (Span.Inside 2)) := by
  have delivered : (analyData (0x81::0x85::List.replicate 4094 0x41) 2).value ≠ none := by decide +kernel
  have payload : Span.mk 6 5 ∈ (analyData (0x81::0x85::List.replicate 4094 0x41) 2).log := by decide +kernel
  rintro (null | inside)
  · exact delivered null
  · exact absurd (inside _ payload) (by decide)

/-- The length code, the bytes that extend it, and the length they stand for. -/
private structure Form (length code : Nat) (extended : List UInt8) : Prop where
  field : lengthField length = UInt8.ofNat (0x80+code)::extended
  small : code < 128
  cases : (code = 126 ∧ extended = bigEndian 2 length ∧ length < 256^2) ∨
    (code = 127 ∧ extended = bigEndian 8 length ∧ length < 256^8) ∨
    (code = length ∧ extended = [] ∧ length < 126)

private theorem lengthField_form (length : Nat) (short : length < 2^63) :
    ∃ code extended, Form length code extended := by
  by_cases small : length < 126
  · exact ⟨length,[],by rw [lengthField,if_pos small],by omega,Or.inr (Or.inr ⟨rfl,rfl,small⟩)⟩
  · by_cases medium : length < 65536
    · exact ⟨126,_,by rw [lengthField,if_neg small,if_pos medium]; rfl,by decide,Or.inl ⟨rfl,rfl,by omega⟩⟩
    · exact ⟨127,_,by rw [lengthField,if_neg small,if_neg medium]; rfl,by decide,Or.inr (Or.inl ⟨rfl,rfl,by omega⟩)⟩

private theorem code_bits (code : Nat) (small : code < 128) :
    UInt8.ofNat (0x80+code) &&& 0x80 = 0x80 ∧ (UInt8.ofNat (0x80+code) &&& 0x7F).toNat = code := by
  revert code
  decide

private theorem unmask_masked (mask : Fin 4 → UInt8) (payload : List UInt8) (bound : payload.length < 2^31) :
    unmask (List.ofFn mask) (masked mask payload) = payload := by
  have cell (i : Nat) : (List.ofFn mask).getD (i%4) 0 = mask (Fin.ofNat 4 i) := by
    have bound : i%4 < (List.ofFn mask).length := by
      rw [List.length_ofFn]
      exact Nat.mod_lt i (by decide)
    rw [List.getD_eq_getElem _ _ bound,List.getElem_ofFn]
    rfl
  have whole : unmask (List.ofFn mask) (masked mask payload) = masked mask (masked mask payload) := by
    apply List.mapIdx_eq_mapIdx_iff.mpr
    intro i inside
    rw [Rfc6455.masked_length] at inside
    rw [if_pos (by omega),cell]
  rw [whole,masked_masked]

section Announced
variable {frame : Rfc6455.Frame} {code : Nat} {extended : List UInt8}

private theorem Form.layout (form : Form frame.payload.length code extended) (rest : List UInt8) :
    frame.bytes ++ rest = (UInt8.ofNat (0x80+frame.opcode)::UInt8.ofNat (0x80+code)::extended) ++
      (List.ofFn frame.mask ++ (masked frame.mask frame.payload ++ rest)) := by
  simp only [Rfc6455.Frame.bytes,form.field,List.cons_append,List.append_assoc]

private theorem Form.length (form : Form frame.payload.length code extended) :
    frame.bytes.length = 6+extended.length+frame.payload.length := by
  simp only [Rfc6455.Frame.bytes,form.field,List.length_append,List.length_cons,List.length_ofFn,
    Rfc6455.masked_length]
  omega

private theorem Form.coded (form : Form frame.payload.length code extended) (rest : List UInt8) :
    (frame.bytes ++ rest).getD 1 0 &&& 0x80 = 0x80 ∧ lengthCode (frame.bytes ++ rest) = code := by
  rw [lengthCode,form.layout]
  exact code_bits code form.small

private theorem Form.header (form : Form frame.payload.length code extended) (rest : List UInt8) :
    headerSize (frame.bytes ++ rest) = 6+extended.length ∧
      declaredLength (frame.bytes ++ rest) = frame.payload.length := by
  have extension : fetch (frame.bytes ++ rest) 2 extended.length = extended := by
    rw [form.layout]
    exact Memory.fetch_append [_,_] extended _
  unfold headerSize declaredLength
  rw [(form.coded rest).2]
  obtain ⟨rfl,rfl,bound⟩ | ⟨rfl,rfl,bound⟩ | ⟨rfl,rfl,bound⟩ := form.cases
  · rw [bigEndian_length] at extension ⊢
    rw [if_pos rfl,if_pos rfl,extension,value_bigEndian bound]
    exact ⟨rfl,rfl⟩
  · rw [bigEndian_length] at extension ⊢
    rw [if_neg (by decide),if_pos rfl,if_neg (by decide),if_pos rfl,extension,value_bigEndian bound]
    exact ⟨rfl,rfl⟩
  · rw [if_neg (by omega),if_neg (by omega),if_neg (by omega),if_neg (by omega)]
    exact ⟨rfl,rfl⟩

private theorem Form.masks (form : Form frame.payload.length code extended) (rest : List UInt8) :
    fetch (frame.bytes ++ rest) (headerSize (frame.bytes ++ rest)-4) 4 = List.ofFn frame.mask := by
  apply Memory.fetch_of_split (form.layout rest)
  · rw [(form.header rest).1,List.length_cons,List.length_cons]
    omega
  · rw [List.length_ofFn]

private theorem Form.payload (form : Form frame.payload.length code extended) (rest : List UInt8) :
    fetch (frame.bytes ++ rest) (headerSize (frame.bytes ++ rest)) frame.payload.length =
      masked frame.mask frame.payload := by
  have split := form.layout rest
  rw [← List.append_assoc] at split
  apply Memory.fetch_of_split split
  · rw [(form.header rest).1,List.length_append,List.length_cons,List.length_cons,List.length_ofFn]
    omega
  · rw [Rfc6455.masked_length]

end Announced

/-- A buffer that starts with a frame announces that frame, and holds its mask and its
masked payload where `analyData` looks for them. -/
private theorem frame_announced (frame : Rfc6455.Frame) (rest : List UInt8) :
    (frame.bytes ++ rest).getD 1 0 &&& 0x80 = 0x80 ∧
      headerSize (frame.bytes ++ rest)+frame.payload.length = frame.bytes.length ∧
      declaredLength (frame.bytes ++ rest) = frame.payload.length ∧
      fetch (frame.bytes ++ rest) (headerSize (frame.bytes ++ rest)-4) 4 = List.ofFn frame.mask ∧
      fetch (frame.bytes ++ rest) (headerSize (frame.bytes ++ rest)) frame.payload.length =
        masked frame.mask frame.payload := by
  obtain ⟨code,extended,form⟩ := lengthField_form frame.payload.length frame.short
  obtain ⟨header,declared⟩ := form.header rest
  exact ⟨(form.coded rest).1,by rw [header,form.length],declared,form.masks rest,form.payload rest⟩

private theorem frame_fin (frame : Rfc6455.Frame) (rest : List UInt8) :
    (frame.bytes ++ rest).getD 0 0 &&& 0x80 = 0x80 := by
  have bits (opcode : Fin 16) : UInt8.ofNat (0x80+opcode) &&& 0x80 = 0x80 := by
    revert opcode
    decide
  exact bits frame.opcode

theorem analyData_frame (frame : Rfc6455.Frame) (bound : frame.payload.length < 2^31) (rest : List UInt8)
    (bufLen : Int) (received : frame.bytes.length ≤ bufLen) :
    (analyData (frame.bytes ++ rest) bufLen).value = some frame.payload := by
  obtain ⟨mask,size,declared,masks,payload⟩ := frame_announced frame rest
  have header : 6 ≤ headerSize (frame.bytes ++ rest) := by
    unfold headerSize
    split
    · decide
    · split <;> decide
  have accepted : ¬Rejected (frame.bytes ++ rest) bufLen := by
    rintro (short | fin | unmasked)
    · omega
    · exact fin (frame_fin frame rest)
    · exact unmasked mask
  rw [analyData_accepted accepted]
  simp only [copyPayload_value,declared,masks,payload,unmask_masked frame.mask frame.payload bound]

/-- A frame at the start of the buffer is accepted and its payload is recovered. -/
theorem analyData_decodes (frame : Rfc6455.Frame) (bound : frame.payload.length < 2^31) (buf : List UInt8)
    (starts : frame.bytes <+: buf) (bufLen : Int) (received : frame.bytes.length ≤ bufLen) :
    (analyData buf bufLen).value = some frame.payload := by
  obtain ⟨rest,rfl⟩ := starts
  exact analyData_frame frame bound rest bufLen received

theorem analyData_hello :
    (analyData [0x81,0x85,0x37,0xFA,0x21,0x3D,0x7F,0x9F,0x4D,0x51,0x58,0xAA] 12).value =
      some (Rfc4648.ascii "Hello") :=
  analyData_decodes ⟨1,List.get [0x37,0xFA,0x21,0x3D],Rfc4648.ascii "Hello",by decide +kernel⟩ (by decide +kernel) _
    ⟨[0xAA],by decide +kernel⟩ 12 (by decide +kernel)

theorem packData_packet {message : List UInt8} (short : (cstr message).length < 65535) :
    packData message = (some (Rfc6455.textPacket (cstr message)).bytes,(Rfc6455.textPacket (cstr message)).bytes.length) := by
  unfold packData Rfc6455.Packet.bytes Rfc6455.lengthForm Rfc6455.textPacket
  by_cases small : (cstr message).length < 126
  · simp only [small,if_true,Option.isSome_none,Bool.toNat_false,Nat.mul_zero,Nat.zero_add]
    rfl
  · have medium : (cstr message).length < 65536 := by omega
    have split : [UInt8.ofNat ((cstr message).length >>> 8 &&& 0xFF),UInt8.ofNat ((cstr message).length &&& 0xFF)] =
        bigEndian 2 (cstr message).length := by
      have high : (cstr message).length >>> 8 &&& 0xFF = (cstr message).length/256%256 := by
        rw [Nat.shiftRight_eq_div_pow]
        exact Nat.and_two_pow_sub_one_eq_mod _ 8
      have low : (cstr message).length &&& 0xFF = (cstr message).length%256 := Nat.and_two_pow_sub_one_eq_mod _ 8
      rw [high,low]
      rfl
    simp only [small,short,medium,if_true,if_false,← split]
    rfl

theorem packData_long {message : List UInt8} (long : ¬(cstr message).length < 65535) :
    packData message = (none,0) := by
  have large : ¬(cstr message).length < 126 := by omega
  simp only [packData,large,long,if_false]

structure Message where
  bytes : List UInt8
  clean : 0 ∉ bytes
  rest : List UInt8

namespace Message

def memory (message : Message) : List UInt8 := message.bytes ++ 0::message.rest

theorem text (message : Message) : cstr message.memory = message.bytes :=
  Memory.text_terminated message.clean message.rest

/-- One frame that says the message where the 16-bit form can carry it, and none otherwise. -/
def Framed (message : Message) : Prop :=
  if message.bytes.length ≤ 65535 then
    ∃ frame, packData message.memory = (some frame,frame.length) ∧
      Rfc6455.decode frame = some (Rfc6455.textPacket message.bytes,[])
  else packData message.memory = (none,0)

theorem framed_short {message : Message} (short : message.bytes.length < 65535) : message.Framed := by
  have packed := @packData_packet message.memory (by rw [text]; exact short)
  rw [text] at packed
  have decoded := Rfc6455.decode_bytes (Rfc6455.textPacket message.bytes) (by simp only [Rfc6455.textPacket]; omega) []
  rw [List.append_nil] at decoded
  rw [Framed,if_pos (Nat.le_of_lt short)]
  exact ⟨_,packed,decoded⟩

/-- The comparison with 0xFFFF is strict, and leaves out the largest length of the form. -/
theorem unframed_largest {message : Message} (largest : message.bytes.length = 65535) : ¬message.Framed := by
  have none := @packData_long message.memory (by rw [text]; omega)
  rw [Framed,if_pos (Nat.le_of_eq largest)]
  rintro ⟨frame,packed,-⟩
  rw [none] at packed
  exact Option.some_ne_none frame (Prod.mk.inj packed).1.symm

theorem framed_iff (message : Message) : message.Framed ↔ message.bytes.length ≠ 65535 := by
  constructor
  · exact fun framed largest => unframed_largest largest framed
  · intro other
    by_cases short : message.bytes.length < 65535
    · exact framed_short short
    · have long : ¬message.bytes.length ≤ 65535 := by omega
      rw [Framed,if_neg long]
      exact packData_long (by rw [text]; exact short)

end Message

def filledMessage (n : Nat) : Message where
  bytes := List.replicate n 0x41
  clean := fun member => absurd (List.eq_of_mem_replicate member) (by decide)
  rest := []

theorem filledMessage_unframed {n : Nat} (largest : n = 65535) : ¬(filledMessage n).Framed := by
  apply Message.unframed_largest
  rw [← largest]
  exact List.length_replicate

theorem packData_drops_largest : ¬∀ message : Message, message.Framed := by
  intro always
  obtain ⟨n,largest⟩ : ∃ n, n = 65535 := ⟨65535,rfl⟩
  exact filledMessage_unframed largest (always (filledMessage n))

end Libsme.Websocket
