import Libsme.Library.Traced
import Libsme.Semantics.Rfc6455
import Libsme.Websocket.Base64
import Libsme.Websocket.Sha1

/-! The answer to the opening handshake: fetchSecKey and computeAcceptKey of main.cpp and
main.c, and htoi of intLib.h. Pointers are optional memories; `malloc` is taken to
succeed, and an access outside an object is recorded in the log instead of stopping. -/
namespace Libsme.Websocket
open Positional Semantics
open Memory (cstr)

inductive Region where
  | request
  | key
deriving DecidableEq

inductive Access where
  | load (region : Region) (start size : Nat)
  | store (region : Region) (start size : Nat)
deriving DecidableEq

def webSocketKeyLenMax : Nat := 256

def flag : List UInt8 := Rfc4648.ascii "Sec-WebSocket-Key: "

/-- The loop of `fetchSecKey` from index `i`, with `remaining` turns up to `bufLen`. -/
def copyKey (buf : List UInt8) (keyBegin : Nat) :
    Nat → Nat → List UInt8 → Traced Access (List UInt8)
  | 0, _, key => pure key
  | remaining+1, i, key => do
    Traced.emit (.load .request (keyBegin+i) 1)
    let c := buf.getD (keyBegin+i) 0
    if c = 0x0A ∨ c = 0x0D then pure key
    else do
      Traced.emit (.store .key i 1)
      copyKey buf keyBegin remaining (i+1) (Memory.overwrite key i [c])

def fetchSecKey : Option (List UInt8) → Traced Access (Option (List UInt8))
  | none => pure none
  | some buf => do
    let key := List.replicate webSocketKeyLenMax 0
    let bufLen := (cstr buf).length
    -- strstr and strlen read the string and its terminator.
    Traced.emit (.load .request 0 (bufLen+1))
    match Memory.occurrence flag (cstr buf) with
    | none => pure none
    | some offset => do
      let key ← copyKey buf (offset+flag.length) bufLen 0 key
      pure (some key)

def strcatKey (key string : List UInt8) : Traced Access (List UInt8) := do
  Traced.emit (.store .key (cstr key).length (string.length+1))
  pure (Memory.overwrite key (cstr key).length (string ++ [0]))

def tolower (c : UInt8) : UInt8 := if 65 ≤ c ∧ c ≤ 90 then c + 97 - 65 else c

def isHexDigit (c : UInt8) : Bool := (48 ≤ c ∧ c ≤ 57) ∨ (97 ≤ c ∧ c ≤ 102) ∨ (65 ≤ c ∧ c ≤ 70)

/-- The loop of `htoi` over the characters from `s[i]`. -/
def htoiLoop (len : Nat) : List UInt8 → Nat → Nat → Nat
  | [], _, n => n
  | c::rest, j, n =>
    if isHexDigit c then
      if j ≥ len then n
      else if tolower c > 57 then htoiLoop len rest (j+1) (16*n + (10 + (tolower c).toNat - 97))
      else htoiLoop len rest (j+1) (16*n + ((tolower c).toNat - 48))
    else n

def htoi (s : List UInt8) (start len : Nat) : Nat :=
  let i := if s.getD 0 0 = 48 ∧ (s.getD 1 0 = 120 ∨ s.getD 1 0 = 88) then 2 else 0
  htoiLoop len (s.drop (i+start)) 0 0

/-- The loop that turns the hexadecimal text back into bytes, on a zeroed buffer. -/
def sha1Bytes (sha1DataTemp : List UInt8) : List UInt8 :=
  let n := sha1DataTemp.length
  Memory.overwrite (List.replicate (n/2+1) 0) 0
    ((List.range ((n+1)/2)).map fun k => UInt8.ofNat (htoi (sha1DataTemp ++ [0]) (2*k) 2))

/-- `sha1_hash` fails only past 2^61 bytes; that crash is not modelled and reads as no text. -/
def computeAcceptKey : Option (List UInt8) → Traced Access (Option (List UInt8))
  | none => pure none
  | some buf => do
    match ← fetchSecKey (some buf) with
    | none => pure none
    | some clientKey => do
      let clientKey ← strcatKey clientKey Rfc6455.guid
      let sha1Data := sha1Bytes ((sha1Hash (cstr clientKey)).getD [])
      pure (some (base64Encode sha1Data (cstr sha1Data).length))

theorem computeAcceptKey_null_iff (buf : List UInt8) :
    (computeAcceptKey (some buf)).value = none ↔ ¬flag <:+: cstr buf := by
  rw [← Memory.occurrence_eq_none_iff]
  unfold computeAcceptKey fetchSecKey
  cases found : Memory.occurrence flag (cstr buf) with
  | none => simp [found]
  | some offset => simp [found]

theorem copyKey_value (buf : List UInt8) (keyBegin : Nat) (k : List UInt8) (eol : UInt8)
    (ends : eol = 0x0A ∨ eol = 0x0D) (one : ∀ c ∈ k, ¬(c = 0x0A ∨ c = 0x0D)) (remaining : Nat)
    (turns : k.length < remaining) (done tail rest : List UInt8)
    (source : buf.drop (keyBegin+done.length) = k ++ eol::rest) :
    (copyKey buf keyBegin remaining done.length (done ++ tail)).value = done ++ (k ++ tail.drop k.length) := by
  induction k generalizing remaining done tail with
  | nil =>
    obtain ⟨remaining,rfl⟩ := Nat.exists_eq_succ_of_ne_zero (by omega : remaining ≠ 0)
    have head : buf.getD (keyBegin+done.length) 0 = eol := by
      rw [List.getD_eq_getElem?_getD,← List.head?_drop,source]
      rfl
    rw [copyKey]
    simp only [Traced.bind_value,head,ends,if_true]
    simp
  | cons c k ih =>
    obtain ⟨remaining,rfl⟩ := Nat.exists_eq_succ_of_ne_zero (by omega : remaining ≠ 0)
    have head : buf.getD (keyBegin+done.length) 0 = c := by
      rw [List.getD_eq_getElem?_getD,← List.head?_drop,source]
      rfl
    have stored : Memory.overwrite (done ++ tail) done.length [c] = (done ++ [c]) ++ tail.drop 1 := by
      simp [Memory.overwrite]
    have later : buf.drop (keyBegin+(done ++ [c]).length) = k ++ eol::rest := by
      rw [List.length_append,List.length_singleton,← Nat.add_assoc,← List.drop_drop,source]
      rfl
    have next := ih (fun d member => one d (by simp [member])) remaining (by simpa using turns)
      (done ++ [c]) (tail.drop 1) later
    have stays := one c (by simp)
    rw [copyKey]
    simp only [Traced.bind_value,head,stays,if_false,stored]
    rw [List.length_append,List.length_singleton] at next
    rw [next,List.drop_drop,Nat.add_comm 1 k.length]
    simp

/-- A request that carries a key: `front`, the flag at its first occurrence, the key and
the end of its line. -/
structure Request (buf key : List UInt8) : Prop where
  parts : ∃ front eol rest, Memory.FirstOccurrence flag (cstr buf) front (key ++ eol::rest) ∧
    (eol = 0x0A ∨ eol = 0x0D)
  line : ∀ c ∈ key, ¬(c = 0x0A ∨ c = 0x0D)
  fits : key.length ≤ 219

theorem Request.nul_not_mem {buf key : List UInt8} (request : Request buf key) : 0 ∉ key := by
  obtain ⟨front,eol,rest,found,_⟩ := request.parts
  intro member
  apply Memory.terminator_not_mem_text 0 buf
  rw [show Memory.text 0 buf = cstr buf from rfl,found.split]
  simp [member]

theorem fetchSecKey_value {buf key : List UInt8} (request : Request buf key) :
    (fetchSecKey (some buf)).value = some (key ++ List.replicate (256-key.length) 0) := by
  obtain ⟨front,eol,rest,found,ends⟩ := request.parts
  have located := Memory.occurrence_of_first found
  obtain ⟨after,memory,_⟩ := Memory.text_split 0 buf
  have source : buf.drop (front.length+flag.length+([] : List UInt8).length) = key ++ eol::(rest ++ after) := by
    rw [memory,show Memory.text 0 buf = cstr buf from rfl,found.split,List.length_nil,Nat.add_zero,
      ← List.length_append,← List.append_assoc front,List.append_assoc (front ++ flag),List.drop_left]
    simp
  have long : key.length < (cstr buf).length := by
    rw [found.split]
    simp
    omega
  have copied := copyKey_value buf (front.length+flag.length) key eol ends request.line
    (cstr buf).length long [] (List.replicate webSocketKeyLenMax 0) _ source
  unfold fetchSecKey
  simp only [Traced.bind_value,located,Traced.pure_value]
  rw [List.length_nil,List.nil_append,List.nil_append] at copied
  rw [copied,List.drop_replicate]
  rfl

private theorem hexDigit_read (digit : Nat) (small : digit < 16) :
    isHexDigit (hexDigit digit) = true ∧ hexDigit digit ≠ 120 ∧ hexDigit digit ≠ 88 ∧
      (if tolower (hexDigit digit) > 57 then 10 + (tolower (hexDigit digit)).toNat - 97
        else (tolower (hexDigit digit)).toNat - 48) = digit := by
  revert digit
  decide

private theorem htoiLoop_digit (len digit : Nat) (small : digit < 16) (rest : List UInt8) (j n : Nat)
    (more : j < len) :
    htoiLoop len (hexDigit digit::rest) j n = htoiLoop len rest (j+1) (16*n+digit) := by
  obtain ⟨hex,_,_,read⟩ := hexDigit_read digit small
  rw [htoiLoop,if_pos hex,if_neg (by omega)]
  split at read <;> rename_i letter
  · rw [if_pos letter,read]
  · rw [if_neg letter,read]

private theorem htoiLoop_done (len : Nat) (rest : List UInt8) (j n : Nat) (done : j ≥ len) :
    htoiLoop len rest j n = n := by
  cases rest with
  | nil => rfl
  | cons c rest => rw [htoiLoop,if_pos done]; simp

private theorem hexText_drop (bytes : List UInt8) (k : Nat) :
    (hexText bytes).drop (2*k) = hexText (bytes.drop k) := by
  induction k generalizing bytes with
  | zero => simp
  | succ k ih =>
    cases bytes with
    | nil => simp [hexText]
    | cons byte bytes => rw [hexText_cons,Nat.mul_succ,List.drop_succ_cons,List.drop_succ_cons,ih,List.drop_succ_cons]

theorem htoi_hexText (bytes : List UInt8) (k : Nat) (inside : k < bytes.length) :
    htoi (hexText bytes ++ [0]) (2*k) 2 = bytes[k].toNat := by
  have plain : ¬((hexText bytes ++ [0]).getD 0 0 = 48 ∧
      ((hexText bytes ++ [0]).getD 1 0 = 120 ∨ (hexText bytes ++ [0]).getD 1 0 = 88)) := by
    cases bytes with
    | nil => simp at inside
    | cons byte bytes =>
      obtain ⟨_,lower,upper,_⟩ := hexDigit_read (byte.toNat%16) (Nat.mod_lt _ (by decide))
      simp [hexText_cons,lower,upper]
  have low := Nat.mod_lt bytes[k].toNat (by decide : 0 < 16)
  have high : bytes[k].toNat/16 < 16 := by have := bytes[k].toNat_lt; omega
  rw [htoi,if_neg plain,Nat.zero_add,List.drop_append_of_le_length (by rw [hexText_length]; omega),
    hexText_drop,List.drop_eq_getElem_cons inside,hexText_cons,List.cons_append,List.cons_append,
    htoiLoop_digit 2 _ high _ 0 0 (by decide),htoiLoop_digit 2 _ low _ 1 _ (by decide),
    htoiLoop_done 2 _ 2 _ (by decide)]
  omega

theorem sha1Bytes_hexText (bytes : List UInt8) : sha1Bytes (hexText bytes) = bytes ++ [0] := by
  have read : (List.range bytes.length).map (fun k => UInt8.ofNat (htoi (hexText bytes ++ [0]) (2*k) 2)) =
      bytes := by
    apply List.ext_getElem
    · simp
    · intro k left right
      simp [htoi_hexText bytes k right]
  have count : (2*bytes.length+1)/2 = bytes.length := by omega
  have half : 2*bytes.length/2 = bytes.length := by omega
  rw [sha1Bytes,hexText_length,count,half,read,Memory.overwrite_start,List.drop_replicate]
  simp

/-- What `computeAcceptKey` returns for a request with a key: the encoding of the digest
up to its first zero byte, where `strlen` stops. -/
theorem computeAcceptKey_value {buf key : List UInt8} (request : Request buf key) :
    (computeAcceptKey (some buf)).value.map cstr =
      some (Rfc4648.encode (cstr (Fips180.sha1 (key ++ Rfc6455.guid)))) := by
  have fetched := fetchSecKey_value request
  have clean := request.nul_not_mem
  have keyText : cstr (key ++ List.replicate (256-key.length) 0) = key := by
    have room : 256-key.length = (255-key.length)+1 := by have := request.fits; omega
    rw [room,List.replicate_succ]
    exact Memory.text_terminated clean _
  have joined : cstr (strcatKey (key ++ List.replicate (256-key.length) 0) Rfc6455.guid).value =
      key ++ Rfc6455.guid := by
    have guidClean : 0 ∉ Rfc6455.guid := by decide
    simp only [strcatKey,Traced.bind_value,Traced.pure_value,keyText,Memory.overwrite,List.take_left]
    rw [← List.append_assoc,List.append_assoc (key ++ Rfc6455.guid)]
    exact Memory.text_terminated (by simp [clean,guidClean]) _
  have short : (key ++ Rfc6455.guid).length < 2^32 := by
    have size : Rfc6455.guid.length = 36 := by decide
    have fits := request.fits
    rw [List.length_append,size]
    omega
  have hashed := sha1Hash_eq (key ++ Rfc6455.guid) short
  have encoded : cstr (base64Encode (Fips180.sha1 (key ++ Rfc6455.guid) ++ [0])
      (cstr (Fips180.sha1 (key ++ Rfc6455.guid) ++ [0])).length) =
      Rfc4648.encode (cstr (Fips180.sha1 (key ++ Rfc6455.guid))) := by
    have digest : cstr (Fips180.sha1 (key ++ Rfc6455.guid) ++ [0]) =
      cstr (Fips180.sha1 (key ++ Rfc6455.guid)) := Memory.text_concat 0 _
    have copied := Memory.take_text 0 (Fips180.sha1 (key ++ Rfc6455.guid) ++ [0])
    exact (base64Encode_text _ _).trans (by rw [copied]; exact congrArg _ digest)
  unfold computeAcceptKey
  simp only [Traced.bind_value,fetched,Traced.pure_value,Option.map_some,joined,hashed,Option.getD_some,
    sha1Bytes_hexText,encoded]

private theorem encode_cstr_iff (digest : List UInt8) :
    Rfc4648.encode (cstr digest) = Rfc4648.encode digest ↔ 0 ∉ digest := by
  constructor
  · intro same
    have front : cstr digest <+: digest := List.takeWhile_prefix _
    have whole := front.eq_of_length (Rfc4648.encode_injective_length same)
    rw [← whole]
    exact Memory.terminator_not_mem_text 0 digest
  · intro absent
    rw [cstr,Memory.text_of_not_mem absent]

/-- A client is answered with its accept value exactly when the digest of its key has no
zero byte: a zero byte cuts the digest short before it is encoded. -/
theorem computeAcceptKey_accept_iff {buf key : List UInt8} (request : Request buf key) :
    (computeAcceptKey (some buf)).value.map cstr = some (Rfc6455.accept key) ↔
      0 ∉ Fips180.sha1 (key ++ Rfc6455.guid) := by
  rw [computeAcceptKey_value request,Option.some_inj,Rfc6455.accept]
  exact encode_cstr_iff _

def sampleRequest (key : List UInt8) : List UInt8 :=
  Rfc4648.ascii "GET /chat HTTP/1.1\r\n" ++ (flag ++ (key ++ Rfc4648.ascii "\r\n\r\n" ++ [0]))

def sampleKey : List UInt8 := Rfc4648.ascii "dGhlIHNhbXBsZSBub25jZQ=="

def zeroDigestKey : List UInt8 := Rfc4648.ascii "AgICAgICAgICAgICAgICAg=="

private theorem sampleRequest_request (key : List UInt8) (clean : 0 ∉ key)
    (line : ∀ c ∈ key, ¬(c = 0x0A ∨ c = 0x0D)) (fits : key.length ≤ 219)
    (found : Memory.occurrence flag (cstr (sampleRequest key)) = some 20) :
    Request (sampleRequest key) key := by
  have source : cstr (sampleRequest key) =
      Rfc4648.ascii "GET /chat HTTP/1.1\r\n" ++ (flag ++ (key ++ 0x0D::[0x0A,0x0D,0x0A])) := by
    have whole : sampleRequest key = (Rfc4648.ascii "GET /chat HTTP/1.1\r\n" ++ (flag ++
        (key ++ 0x0D::[0x0A,0x0D,0x0A]))) ++ 0::[] := by
      simp only [sampleRequest,List.append_assoc]
      rfl
    rw [whole]
    apply Memory.text_terminated
    simp only [List.mem_append,clean,false_or]
    decide
  exact ⟨⟨_,_,_,Memory.FirstOccurrence.of_occurrence source found,Or.inr rfl⟩,line,fits⟩

private theorem sampleRequest_sample : Request (sampleRequest sampleKey) sampleKey :=
  sampleRequest_request sampleKey (by decide +kernel) (by decide +kernel) (by decide +kernel)
    (by decide +kernel)

private theorem sampleRequest_zeroDigest : Request (sampleRequest zeroDigestKey) zeroDigestKey :=
  sampleRequest_request zeroDigestKey (by decide +kernel) (by decide +kernel) (by decide +kernel)
    (by decide +kernel)

private theorem sampleKey_short : (sampleKey ++ Rfc6455.guid).length < 2^32 := by decide +kernel
private theorem zeroDigestKey_short : (zeroDigestKey ++ Rfc6455.guid).length < 2^32 := by decide +kernel

private theorem sampleKey_digest : 0 ∉ Fips180.sha1 (sampleKey ++ Rfc6455.guid) := by
  rw [sha1_computed _ sampleKey_short]
  decide +kernel

private theorem zeroDigestKey_digest : 0 ∈ Fips180.sha1 (zeroDigestKey ++ Rfc6455.guid) := by
  rw [sha1_computed _ zeroDigestKey_short]
  decide +kernel

theorem computeAcceptKey_sample :
    (computeAcceptKey (some (sampleRequest sampleKey))).value.map cstr = some (Rfc6455.accept sampleKey) :=
  (computeAcceptKey_accept_iff sampleRequest_sample).mpr sampleKey_digest

theorem computeAcceptKey_zeroDigest : Request (sampleRequest zeroDigestKey) zeroDigestKey ∧
    (computeAcceptKey (some (sampleRequest zeroDigestKey))).value.map cstr ≠
      some (Rfc6455.accept zeroDigestKey) := by
  refine ⟨sampleRequest_zeroDigest,?_⟩
  rw [computeAcceptKey_value sampleRequest_zeroDigest,Rfc6455.accept,ne_eq,Option.some_inj,encode_cstr_iff]
  exact not_not.mpr zeroDigestKey_digest

end Libsme.Websocket
