import Libsme.Audio.Playback

/-! pcm_write of audio.c on whatever snd_pcm_writei returns. `count` and `chunk_size` count
frames, offsets count bytes; in_aborting stays clear. -/
namespace Libsme.Audio
open Memory (overwrite)

/-- What ALSA says of a sample format: its physical width in bits and the bytes that
snd_pcm_format_set_silence stores for a number of samples. -/
structure SampleFormat where
  physicalWidth : Nat
  setSilence : Nat → List UInt8
  filled : ∀ samples, (setSilence samples).length = samples*physicalWidth/8

/-- The parameters pcm_write reads; a frame has `frameBytes` whole bytes. -/
structure FrameParams where
  format : SampleFormat
  channels : Nat
  frameBytes : Nat
  whole : format.physicalWidth*channels = 8*frameBytes

def FrameParams.bitsPerFrame (params : FrameParams) : Nat := params.format.physicalWidth*params.channels

/-- The results of snd_pcm_writei; `error` stands for the errors that end the program. -/
inductive WriteResult where
  | frames (r : Nat)
  | eagain
  | epipe
  | estrpipe
  | error
deriving DecidableEq

structure Writing where
  data : List UInt8
  count : Nat
  result : Nat
  accepted : List UInt8

def Writing.start (data : List UInt8) (count : Nat) : Writing := ⟨data,count,0,[]⟩

inductive Outcome where
  | returned (writing : Writing)
  | exited
  | waiting (writing : Writing)

/-- What a turn does with the result `r`; none is an exit. The calls of xrun and suspend
are commented out, so that these errors change nothing. -/
def takeResult (bitsPerFrame : Nat) (writing : Writing) : WriteResult → Option Writing
  | .frames r =>
    if r > 0 then
      some ⟨writing.data.drop (r*bitsPerFrame/8),writing.count-r,writing.result+r,
        writing.accepted ++ writing.data.take (r*bitsPerFrame/8)⟩
    else some writing
  | .eagain | .epipe | .estrpipe => some writing
  | .error => none

def writeLoop (bitsPerFrame : Nat) : Writing → List WriteResult → Outcome
  | writing, [] => if writing.count = 0 then .returned writing else .waiting writing
  | writing, r::results =>
    if writing.count = 0 then .returned writing
    else
      match takeResult bitsPerFrame writing r with
      | none => .exited
      | some next => writeLoop bitsPerFrame next results

def padChunk (params : FrameParams) (chunkSize : Nat) (data : List UInt8) (count : Nat) : Writing :=
  if count < chunkSize then
    .start (overwrite data (count*params.bitsPerFrame/8)
      (params.format.setSilence ((chunkSize-count)*params.channels))) chunkSize
  else .start data count

def Offered : Nat → List WriteResult → Prop
  | _, [] => True
  | count, .frames r::results => r ≤ count ∧ Offered (count-r) results
  | count, _::results => Offered count results

/-- What is accepted and what is left make up the data from the start of the loop on. -/
structure Delivers (frameBytes : Nat) (data : List UInt8) (count : Nat) (writing : Writing) : Prop where
  total : writing.result+writing.count = count
  accepted : writing.accepted = data.take (writing.result*frameBytes)
  left : writing.data = data.drop (writing.result*frameBytes)

section Results
variable {params : FrameParams} {data : List UInt8} {count : Nat} {writing next : Writing}

theorem FrameParams.bytes (params : FrameParams) (frames : Nat) :
    frames*params.bitsPerFrame/8 = frames*params.frameBytes := by
  rw [FrameParams.bitsPerFrame,params.whole,Nat.mul_left_comm,Nat.mul_div_cancel_left _ (by decide)]

theorem Delivers.accept (delivers : Delivers params.frameBytes data count writing) {r : Nat} (offered : r ≤ writing.count) :
    Delivers params.frameBytes data count ⟨writing.data.drop (r*params.bitsPerFrame/8),writing.count-r,
      writing.result+r,writing.accepted ++ writing.data.take (r*params.bitsPerFrame/8)⟩ := by
  have total := delivers.total
  have bytes : (writing.result+r)*params.frameBytes = writing.result*params.frameBytes+r*params.frameBytes :=
    Nat.add_mul _ _ _
  refine ⟨by dsimp only; omega,?_,?_⟩
  · rw [params.bytes,delivers.accepted,delivers.left,bytes,List.take_add]
  · rw [params.bytes,delivers.left,List.drop_drop,bytes]

theorem takeResult_delivers {r : WriteResult} {results : List WriteResult}
    (delivers : Delivers params.frameBytes data count writing) (offered : Offered writing.count (r::results))
    (taken : takeResult params.bitsPerFrame writing r = some next) :
    Delivers params.frameBytes data count next ∧ Offered next.count results := by
  cases r with
  | frames r =>
    obtain ⟨few,rest⟩ := offered
    by_cases some_frame : r > 0
    · rw [takeResult,if_pos some_frame] at taken
      obtain rfl := Option.some.inj taken
      exact ⟨delivers.accept few,rest⟩
    · obtain rfl : r = 0 := Nat.eq_zero_of_not_pos some_frame
      obtain rfl := Option.some.inj taken
      exact ⟨delivers,rest⟩
  | eagain =>
    obtain rfl := Option.some.inj taken
    exact ⟨delivers,offered⟩
  | epipe =>
    obtain rfl := Option.some.inj taken
    exact ⟨delivers,offered⟩
  | estrpipe =>
    obtain rfl := Option.some.inj taken
    exact ⟨delivers,offered⟩
  | error => exact absurd taken.symm (Option.some_ne_none next)

theorem Delivers.done (delivers : Delivers params.frameBytes data count writing) (empty : writing.count = 0) :
    writing.accepted = data.take (count*params.frameBytes) ∧ writing.result = count := by
  have total := delivers.total
  rw [empty,Nat.add_zero] at total
  exact ⟨total ▸ delivers.accepted,total⟩

theorem writeLoop_delivers (results : List WriteResult) (writing : Writing) (offered : Offered writing.count results)
    (delivers : Delivers params.frameBytes data count writing)
    (returned : writeLoop params.bitsPerFrame writing results = .returned next) :
    next.accepted = data.take (count*params.frameBytes) ∧ next.result = count := by
  induction results generalizing writing with
  | nil =>
    by_cases empty : writing.count = 0
    · rw [writeLoop,if_pos empty] at returned
      obtain rfl := Outcome.returned.inj returned
      exact delivers.done empty
    · rw [writeLoop,if_neg empty] at returned
      cases returned
  | cons r results ih =>
    by_cases empty : writing.count = 0
    · rw [writeLoop,if_pos empty] at returned
      obtain rfl := Outcome.returned.inj returned
      exact delivers.done empty
    · rw [writeLoop,if_neg empty] at returned
      cases taken : takeResult params.bitsPerFrame writing r with
      | none =>
        rw [taken] at returned
        cases returned
      | some turned =>
        rw [taken] at returned
        obtain ⟨kept,later⟩ := takeResult_delivers delivers offered taken
        exact ih turned later kept returned

end Results

/-- A call of pcm_write: the buffer holds the frames that are counted. -/
structure WriteCall where
  params : FrameParams
  chunkSize : Nat
  data : List UInt8
  count : Nat
  holds : count*params.frameBytes ≤ data.length

namespace WriteCall

def total (call : WriteCall) : Nat := max call.count call.chunkSize

def writing (call : WriteCall) : Writing := padChunk call.params call.chunkSize call.data call.count

def run (call : WriteCall) (results : List WriteResult) : Outcome :=
  writeLoop call.params.bitsPerFrame call.writing results

def expected (call : WriteCall) : List UInt8 :=
  call.data.take (call.count*call.params.frameBytes) ++
    call.params.format.setSilence ((call.chunkSize-call.count)*call.params.channels)

theorem silence_length (call : WriteCall) :
    (call.params.format.setSilence ((call.chunkSize-call.count)*call.params.channels)).length =
      (call.chunkSize-call.count)*call.params.frameBytes := by
  rw [call.params.format.filled,Nat.mul_assoc,Nat.mul_comm call.params.channels]
  exact call.params.bytes _

theorem writing_count (call : WriteCall) : call.writing.count = call.total := by
  rw [writing,padChunk,total]
  by_cases short : call.count < call.chunkSize
  · rw [if_pos short,Nat.max_eq_right (Nat.le_of_lt short)]
    rfl
  · rw [if_neg short,Nat.max_eq_left (Nat.not_lt.mp short)]
    rfl

theorem writing_delivers (call : WriteCall) :
    Delivers call.params.frameBytes call.writing.data call.total call.writing := by
  have count := call.writing_count
  have parts : call.writing.result = 0 ∧ call.writing.accepted = [] := by
    rw [writing,padChunk]
    split <;> exact ⟨rfl,rfl⟩
  refine ⟨by rw [parts.1,Nat.zero_add,count],?_,?_⟩
  · rw [parts.1,parts.2,Nat.zero_mul,List.take_zero]
  · rw [parts.1,Nat.zero_mul,List.drop_zero]

theorem writing_data (call : WriteCall) : call.writing.data.take (call.total*call.params.frameBytes) = call.expected := by
  have holds := call.holds
  have silence := call.silence_length
  rw [writing,padChunk,total,expected]
  by_cases short : call.count < call.chunkSize
  · have bytes : call.chunkSize*call.params.frameBytes =
        call.count*call.params.frameBytes+(call.chunkSize-call.count)*call.params.frameBytes := by
      rw [← Nat.add_mul,Nat.add_sub_cancel' (Nat.le_of_lt short)]
    rw [if_pos short,Nat.max_eq_right (Nat.le_of_lt short),call.params.bytes,bytes,← silence]
    exact Memory.overwrite_take _ _ _ holds
  · have full := Nat.sub_eq_zero_of_le (Nat.not_lt.mp short)
    rw [full,Nat.zero_mul,Nat.zero_mul] at silence
    rw [if_neg short,Nat.max_eq_left (Nat.not_lt.mp short),full,Nat.zero_mul,List.eq_nil_of_length_eq_zero silence,
      List.append_nil]
    rfl

/-- Whenever pcm_write returns, the device has accepted the data and the silence behind it,
once and in order. -/
theorem pcmWrite_delivers (call : WriteCall) (results : List WriteResult) (offered : Offered call.total results)
    (final : Writing) (returned : call.run results = .returned final) :
    final.accepted = call.expected ∧ final.result = max call.count call.chunkSize := by
  have whole := writeLoop_delivers results call.writing (by rw [writing_count]; exact offered) call.writing_delivers
    returned
  rw [writing_data] at whole
  exact whole

end WriteCall

def PcmFormat.sample (format : PcmFormat) : SampleFormat where
  physicalWidth := format.physicalWidth
  setSilence := formatSetSilence format
  filled := fun _ => List.length_replicate

def Hwparams.frame (hwparams : Hwparams) : FrameParams where
  format := hwparams.format.sample
  channels := hwparams.channels
  frameBytes := hwparams.frameBytes
  whole := (bitsPerFrame_eq hwparams).2

theorem takeResult_frames (bitsPerFrame : Nat) (writing : Writing) (r : Nat) :
    takeResult bitsPerFrame writing (.frames r) =
      some ⟨writing.data.drop (r*bitsPerFrame/8),writing.count-r,writing.result+r,
        writing.accepted ++ writing.data.take (r*bitsPerFrame/8)⟩ := by
  by_cases some_frame : r > 0
  · rw [takeResult,if_pos some_frame]
  · obtain rfl : r = 0 := Nat.eq_zero_of_not_pos some_frame
    simp [takeResult]

/-- What a blocking device takes of a write of playback is a run of the loop. -/
theorem pcmWriteLoop_run (device : Device) (bitsPerFrame : Nat) (data : List UInt8) (count call : Nat) (result : Nat)
    (accepted : List UInt8) : ∃ results final,
      writeLoop bitsPerFrame ⟨data,count,result,accepted⟩ results = .returned final ∧
        final.result = result+(pcmWriteLoop device bitsPerFrame data count call).result ∧
        final.accepted = accepted ++ (pcmWriteLoop device bitsPerFrame data count call).frames := by
  fun_induction pcmWriteLoop device bitsPerFrame data count call generalizing result accepted with
  | case1 data call => exact ⟨[],_,rfl,rfl,(List.append_nil accepted).symm⟩
  | case2 data count call more r rest ih =>
    obtain ⟨results,final,ran,total,frames⟩ := ih (result+r) (accepted ++ data.take (r*bitsPerFrame/8))
    refine ⟨.frames r::results,final,?_,?_,?_⟩
    · rw [writeLoop,if_neg more,takeResult_frames]
      exact ran
    · rw [total,Nat.add_assoc]
    · rw [frames,List.append_assoc]

/-- Two frames of 16 bits and two channels; one is given, the buffer has room for both. -/
def shortCall : WriteCall where
  params := Hwparams.frame ⟨.s16 false,2,44100,by decide⟩
  chunkSize := 2
  data := [1,2,3,4,5,6,7,8]
  count := 1
  holds := by decide

theorem pcmWrite_delivers_short : ∃ final,
    shortCall.run [.eagain,.frames 0,.frames 1,.epipe,.estrpipe,.frames 1] = .returned final ∧
      final.accepted = shortCall.expected ∧ final.result = 2 :=
  ⟨_,rfl,WriteCall.pcmWrite_delivers shortCall [.eagain,.frames 0,.frames 1,.epipe,.estrpipe,.frames 1]
    ⟨by decide,by decide,by decide,trivial⟩ _ rfl⟩

end Libsme.Audio
