import Libsme.Semantics.Fips180
import Libsme.Semantics.Rfc4648

/-! The parts of RFC 6455 the servers implement: the accept value of the opening
handshake, the client's masked frame with its three length forms, and a decoder of
frames from either side. -/
namespace Libsme.Semantics.Rfc6455
open Positional

def guid : List UInt8 := Rfc4648.ascii "258EAFA5-E914-47DA-95CA-C5AB0DC85B11"

def accept (key : List UInt8) : List UInt8 := Rfc4648.encode (Fips180.sha1 (key ++ guid))

/-- A final frame from a client. The length bound is the one of the 64-bit form, whose
most significant bit must be 0. -/
structure Frame where
  opcode : Fin 16
  mask : Fin 4 → UInt8
  payload : List UInt8
  short : payload.length < 2^63

/-- The mask bit and the minimal length form. -/
def lengthField (length : Nat) : List UInt8 :=
  if length < 126 then [UInt8.ofNat (0x80+length)]
  else if length < 65536 then 0xFE::bigEndian 2 length
  else 0xFF::bigEndian 8 length

def textOpcode : Fin 16 := 1

def masked (mask : Fin 4 → UInt8) (payload : List UInt8) : List UInt8 :=
  payload.mapIdx fun i byte => byte ^^^ mask (Fin.ofNat 4 i)

def Frame.bytes (frame : Frame) : List UInt8 :=
  UInt8.ofNat (0x80+frame.opcode)::lengthField frame.payload.length ++
    (List.ofFn frame.mask ++ masked frame.mask frame.payload)

@[simp] theorem masked_length (mask : Fin 4 → UInt8) (payload : List UInt8) :
    (masked mask payload).length = payload.length := by simp [masked]

theorem masked_masked (mask : Fin 4 → UInt8) (payload : List UInt8) :
    masked mask (masked mask payload) = payload := by
  apply List.ext_getElem
  · simp
  · intro i left right
    simp only [masked,List.getElem_mapIdx,UInt8.xor_assoc,UInt8.xor_self,UInt8.xor_zero]

/-- What a frame says; `payload` is the one before masking. -/
structure Packet where
  fin : Bool
  reserved : Fin 8
  opcode : Fin 16
  mask : Option (Fin 4 → UInt8)
  payload : List UInt8

def textPacket (payload : List UInt8) : Packet := ⟨true,0,textOpcode,none,payload⟩

/-- The seven bits of the length and the bytes that extend it. -/
def lengthForm (length : Nat) : Nat × List UInt8 :=
  if length < 126 then (length,[])
  else if length < 65536 then (126,bigEndian 2 length)
  else (127,bigEndian 8 length)

def maskBytes : Option (Fin 4 → UInt8) → List UInt8
  | none => []
  | some mask => List.ofFn mask

def transformed : Option (Fin 4 → UInt8) → List UInt8 → List UInt8
  | none, payload => payload
  | some mask, payload => masked mask payload

def Packet.bytes (packet : Packet) : List UInt8 :=
  let form := lengthForm packet.payload.length
  UInt8.ofNat (128*packet.fin.toNat+16*packet.reserved+packet.opcode)::
    UInt8.ofNat (128*packet.mask.isSome.toNat+form.1)::
    (form.2 ++ (maskBytes packet.mask ++ transformed packet.mask packet.payload))

/-- A length in a longer form than it needs is refused, and so is one whose most
significant bit is 1. -/
def decodeLength (code : Nat) (bytes : List UInt8) : Option (Nat × List UInt8) :=
  if code < 126 then some (code,bytes)
  else
    let width := if code = 126 then 2 else 8
    let length := value 256 ((bytes.take width).map UInt8.toNat)
    if bytes.length < width then none
    else if length < (if code = 126 then 126 else 65536) ∨ 2^63 ≤ length then none
    else some (length,bytes.drop width)

def decodeMask (present : Bool) (bytes : List UInt8) : Option (Option (Fin 4 → UInt8) × List UInt8) :=
  if present then
    if bytes.length < 4 then none else some (some fun i => bytes.getD i 0,bytes.drop 4)
  else some (none,bytes)

/-- The frame that starts the bytes, and the bytes behind it. -/
def decode : List UInt8 → Option (Packet × List UInt8)
  | first::second::rest => do
    let (length,rest) ← decodeLength (second.toNat%128) rest
    let (mask,rest) ← decodeMask (128 ≤ second.toNat) rest
    if rest.length < length then none
    else some (⟨128 ≤ first.toNat,Fin.ofNat 8 (first.toNat/16),Fin.ofNat 16 first.toNat,mask,
      transformed mask (rest.take length)⟩,rest.drop length)
  | _ => none

private theorem decodeLength_short {length : Nat} (least : 126 ≤ length) (bound : length < 65536) (rest : List UInt8) :
    decodeLength 126 (bigEndian 2 length ++ rest) = some (length,rest) := by
  have read : value 256 ((bigEndian 2 length).map UInt8.toNat) = length := value_bigEndian bound
  have size := bigEndian_length 2 length
  have minimal : ¬(length < 126 ∨ 2^63 ≤ length) := by omega
  have whole : ¬(bigEndian 2 length ++ rest).length < 2 := by
    rw [List.length_append,size]
    omega
  simp only [decodeLength,Nat.lt_irrefl,if_true,if_false,List.take_left' size,List.drop_left' size,read,whole,minimal]

private theorem decodeLength_long {length : Nat} (least : 65536 ≤ length) (bound : length < 2^63) (rest : List UInt8) :
    decodeLength 127 (bigEndian 8 length ++ rest) = some (length,rest) := by
  have read : value 256 ((bigEndian 8 length).map UInt8.toNat) = length := value_bigEndian (by omega)
  have size := bigEndian_length 8 length
  have minimal : ¬(length < 65536 ∨ 2^63 ≤ length) := by omega
  have whole : ¬(bigEndian 8 length ++ rest).length < 8 := by
    rw [List.length_append,size]
    omega
  have code : ¬127 < 126 ∧ ¬127 = 126 := by decide
  simp only [decodeLength,code,if_false,List.take_left' size,List.drop_left' size,read,whole,minimal]

theorem decodeLength_form {length : Nat} (short : length < 2^63) (rest : List UInt8) :
    (lengthForm length).1 < 128 ∧
      decodeLength (lengthForm length).1 ((lengthForm length).2 ++ rest) = some (length,rest) := by
  unfold lengthForm
  by_cases small : length < 126
  · rw [if_pos small]
    exact ⟨by omega,if_pos small⟩
  · by_cases medium : length < 65536
    · rw [if_neg small,if_pos medium]
      exact ⟨(by decide : 126 < 128),decodeLength_short (Nat.le_of_not_lt small) medium rest⟩
    · rw [if_neg small,if_neg medium]
      exact ⟨(by decide : 127 < 128),decodeLength_long (Nat.le_of_not_lt medium) short rest⟩

theorem decodeMask_bytes (mask : Option (Fin 4 → UInt8)) (rest : List UInt8) :
    decodeMask mask.isSome (maskBytes mask ++ rest) = some (mask,rest) := by
  cases mask with
  | none => rfl
  | some mask =>
    have size : (List.ofFn mask).length = 4 := List.length_ofFn
    have read : (fun i : Fin 4 => (List.ofFn mask ++ rest).getD i 0) = mask := by
      funext i
      have inside : i.val < (List.ofFn mask).length := by omega
      rw [List.getD_append _ _ _ _ inside,List.getD_eq_getElem _ _ inside,List.getElem_ofFn]
    rw [maskBytes,decodeMask,Option.isSome_some,if_pos rfl,if_neg (by simp),read,List.drop_left' size]

theorem transformed_transformed (mask : Option (Fin 4 → UInt8)) (payload : List UInt8) :
    transformed mask (transformed mask payload) = payload := by
  cases mask with
  | none => rfl
  | some mask => exact masked_masked mask payload

@[simp] theorem transformed_length (mask : Option (Fin 4 → UInt8)) (payload : List UInt8) :
    (transformed mask payload).length = payload.length := by
  cases mask with
  | none => rfl
  | some mask => exact masked_length mask payload

private theorem firstByte (fin : Bool) (reserved : Fin 8) (opcode : Fin 16) :
    let first := (UInt8.ofNat (128*fin.toNat+16*reserved+opcode)).toNat
    decide (128 ≤ first) = fin ∧ Fin.ofNat 8 (first/16) = reserved ∧ Fin.ofNat 16 first = opcode := by
  revert fin reserved opcode
  decide

private theorem secondByte (masked : Bool) (code : Nat) (small : code < 128) :
    let second := (UInt8.ofNat (128*masked.toNat+code)).toNat
    decide (128 ≤ second) = masked ∧ second%128 = code := by
  revert masked code
  decide

theorem decode_bytes (packet : Packet) (short : packet.payload.length < 2^63) (rest : List UInt8) :
    decode (packet.bytes ++ rest) = some (packet,rest) := by
  obtain ⟨small,length⟩ := decodeLength_form short
    (maskBytes packet.mask ++ (transformed packet.mask packet.payload ++ rest))
  obtain ⟨fin,reserved,opcode⟩ := firstByte packet.fin packet.reserved packet.opcode
  obtain ⟨present,code⟩ := secondByte packet.mask.isSome _ small
  have mask := decodeMask_bytes packet.mask (transformed packet.mask packet.payload ++ rest)
  have size := transformed_length packet.mask packet.payload
  have whole : ¬(transformed packet.mask packet.payload ++ rest).length < packet.payload.length := by simp
  simp only [Packet.bytes,List.cons_append,List.append_assoc,decode,code,length,present,mask,fin,reserved,opcode,
    Option.bind_eq_bind,Option.bind_some,whole,if_false,List.take_left' size,List.drop_left' size,
    transformed_transformed]

end Libsme.Semantics.Rfc6455
