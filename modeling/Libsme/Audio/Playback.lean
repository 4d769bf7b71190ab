import Libsme.Audio.Wavefile
import Libsme.Library.Blocks

/-! playback of audio.c: the bytes that reach the device. set_params keeps what audiobuf
holds, in_aborting is never set, and a run is what the device has taken when it ends. -/
namespace Libsme.Audio
open Blocks
open Semantics

/-- snd_pcm_format_physical_width -/
def PcmFormat.physicalWidth : PcmFormat → Nat
  | .u8 => 8
  | .s16 _ => 16
  | .s24In3 _ => 24
  | .s24 _ | .s32 _ | .float _ => 32

def PcmFormat.silence : PcmFormat → UInt8
  | .u8 => 0x80
  | _ => 0

def Hwparams.bitsPerFrame (hwparams : Hwparams) : Nat := hwparams.format.physicalWidth*hwparams.channels

/-- A device in blocking mode takes at least one frame now and then; a call that fails with
-EAGAIN takes none. -/
structure Device where
  chunkSize : Nat
  accepts : Nat → Nat
  sized : 0 < chunkSize
  progress : ∀ call, ∃ later, call ≤ later ∧ 0 < accepts later

/-- The result of a write, the bytes the device took in it, and the calls made so far. -/
structure Written where
  result : Nat
  frames : List UInt8
  calls : Nat

theorem Device.waits (device : Device) {call : Nat} (refuses : device.accepts call = 0) :
    Nat.find (device.progress (call+1))-(call+1) < Nat.find (device.progress call)-call := by
  obtain ⟨after,takes⟩ := Nat.find_spec (device.progress call)
  have later : call+1 ≤ Nat.find (device.progress call) := by
    rcases Nat.lt_or_eq_of_le after with before | here
    · exact before
    · rw [← here,refuses] at takes
      exact absurd takes (Nat.lt_irrefl 0)
  have first : Nat.find (device.progress (call+1)) ≤ Nat.find (device.progress call) :=
    Nat.find_min' _ ⟨later,takes⟩
  omega

def pcmWriteLoop (device : Device) (bitsPerFrame : Nat) (data : List UInt8) (count call : Nat) : Written :=
  if count = 0 then ⟨0,[],call⟩
  else
    let r := min (device.accepts call) count
    let rest := pcmWriteLoop device bitsPerFrame (data.drop (r*bitsPerFrame/8)) (count-r) (call+1)
    ⟨r+rest.result,data.take (r*bitsPerFrame/8) ++ rest.frames,rest.calls⟩
termination_by (count,Nat.find (device.progress call)-call)
decreasing_by
  rcases Nat.eq_zero_or_pos (device.accepts call) with refuses | takes
  · rw [refuses,Nat.zero_min]
    exact Prod.Lex.right _ (device.waits refuses)
  · exact Prod.Lex.left _ _ (by omega)

def formatSetSilence (format : PcmFormat) (samples : Nat) : List UInt8 :=
  List.replicate (samples*format.physicalWidth/8) format.silence

def pcmWrite (device : Device) (hwparams : Hwparams) (data : List UInt8) (count calls : Nat) : Written :=
  if count < device.chunkSize then
    pcmWriteLoop device hwparams.bitsPerFrame
      (data.take (count*hwparams.bitsPerFrame/8) ++
        formatSetSilence hwparams.format ((device.chunkSize-count)*hwparams.channels)) device.chunkSize calls
  else pcmWriteLoop device hwparams.bitsPerFrame data count calls

def chunkBytes (device : Device) (hwparams : Hwparams) : Nat := device.chunkSize*hwparams.bitsPerFrame/8

/-- The loop that fills the buffer from the file, `left` bytes short of the end. -/
def fill (chunkBytes left : Nat) (reader : Reader) : Reader :=
  let c : Int := min left chunkBytes-reader.buffer.length
  if c = 0 then reader
  else
    let r := safeRead reader.file (c%2^64).toNat
    if r.1 = [] then reader
    else if (reader.buffer ++ r.1).length < chunkBytes then fill chunkBytes left ⟨reader.buffer ++ r.1,r.2⟩
    else ⟨reader.buffer ++ r.1,r.2⟩
termination_by reader.file.length
decreasing_by
  rename_i read _
  have some_read : 0 < (reader.file.take (c%2^64).toNat).length := List.length_pos_iff.mpr read
  change (reader.file.drop (c%2^64).toNat).length < reader.file.length
  rw [List.length_take] at some_read
  rw [List.length_drop]
  omega

theorem physicalWidth_eq (format : PcmFormat) : ∃ bytes, 0 < bytes ∧ format.physicalWidth = 8*bytes := by
  cases format with
  | u8 => exact ⟨1,by decide,rfl⟩
  | s16 => exact ⟨2,by decide,rfl⟩
  | s24In3 => exact ⟨3,by decide,rfl⟩
  | s24 => exact ⟨4,by decide,rfl⟩
  | s32 => exact ⟨4,by decide,rfl⟩
  | float => exact ⟨4,by decide,rfl⟩

def Hwparams.frameBytes (hwparams : Hwparams) : Nat := hwparams.bitsPerFrame/8

theorem bitsPerFrame_eq (hwparams : Hwparams) :
    0 < hwparams.frameBytes ∧ hwparams.bitsPerFrame = 8*hwparams.frameBytes := by
  obtain ⟨bytes,positive,width⟩ := physicalWidth_eq hwparams.format
  have bits : hwparams.bitsPerFrame = 8*(bytes*hwparams.channels) := by
    rw [Hwparams.bitsPerFrame,width,Nat.mul_assoc]
  rw [Hwparams.frameBytes,bits,Nat.mul_div_cancel_left _ (by decide)]
  exact ⟨Nat.mul_pos positive hwparams.sounds,rfl⟩

@[simp] theorem mul_bitsPerFrame (hwparams : Hwparams) (count : Nat) :
    count*hwparams.bitsPerFrame/8 = count*hwparams.frameBytes := by
  rw [(bitsPerFrame_eq hwparams).right,Nat.mul_left_comm,Nat.mul_div_cancel_left _ (by decide)]

@[simp] theorem div_bitsPerFrame (hwparams : Hwparams) (bytes : Nat) :
    bytes*8/hwparams.bitsPerFrame = bytes/hwparams.frameBytes := by
  rw [(bitsPerFrame_eq hwparams).right,Nat.mul_comm bytes,Nat.mul_div_mul_left _ _ (by decide)]

theorem chunkBytes_pos (device : Device) (hwparams : Hwparams) : 0 < chunkBytes device hwparams :=
  Nat.lt_of_lt_of_eq (Nat.mul_pos device.sized (bitsPerFrame_eq hwparams).left) (mul_bitsPerFrame _ _).symm

theorem pcmWriteLoop_result (device : Device) (bitsPerFrame : Nat) (data : List UInt8) (count call : Nat) :
    (pcmWriteLoop device bitsPerFrame data count call).result = count := by
  fun_induction pcmWriteLoop device bitsPerFrame data count call with
  | case1 => rfl
  | case2 data count call more r rest ih =>
    change r+rest.result = count
    rw [ih]
    exact Nat.add_sub_cancel' (Nat.min_le_right _ _)

theorem pcmWrite_result (device : Device) (hwparams : Hwparams) (data : List UInt8) (count calls : Nat) :
    (pcmWrite device hwparams data count calls).result = max count device.chunkSize := by
  unfold pcmWrite
  by_cases short : count < device.chunkSize
  · rw [if_pos short,pcmWriteLoop_result,Nat.max_eq_right (Nat.le_of_lt short)]
  · rw [if_neg short,pcmWriteLoop_result,Nat.max_eq_left (Nat.not_lt.mp short)]

structure Playing where
  reader : Reader
  written : Nat
  calls : Nat
  submitted : List UInt8

/-- The loop of playback_go that reads. -/
def playRest (device : Device) (hwparams : Hwparams) (count : Nat) (playing : Playing) : List UInt8 :=
  if playing.written < count then
    let reader := fill (chunkBytes device hwparams) (count-playing.written) playing.reader
    let l := reader.buffer.length*8/hwparams.bitsPerFrame
    let write := pcmWrite device hwparams reader.buffer l playing.calls
    if write.result ≠ l then playing.submitted ++ write.frames
    else playRest device hwparams count
      ⟨⟨[],reader.file⟩,playing.written+write.result*hwparams.bitsPerFrame/8,write.calls,playing.submitted ++ write.frames⟩
  else playing.submitted
termination_by count-playing.written
decreasing_by
  have all : write.result = max l device.chunkSize := pcmWrite_result _ _ _ _ _
  have some_frame : 0 < write.result := by
    rw [all]
    exact Nat.lt_of_lt_of_le device.sized (Nat.le_max_right _ _)
  have some_bytes := Nat.mul_pos some_frame (bitsPerFrame_eq hwparams).left
  change count-(playing.written+write.result*hwparams.bitsPerFrame/8) < count-playing.written
  rw [mul_bitsPerFrame]
  omega

def playLoaded (device : Device) (hwparams : Hwparams) (count : Nat) (playing : Playing) : List UInt8 :=
  if playing.reader.buffer.length > chunkBytes device hwparams ∧ playing.written < count then
    let write := pcmWrite device hwparams playing.reader.buffer device.chunkSize playing.calls
    if write.result = 0 then playing.submitted ++ write.frames
    else playLoaded device hwparams count
      ⟨playing.reader.move (chunkBytes device hwparams),playing.written+chunkBytes device hwparams,write.calls,
        playing.submitted ++ write.frames⟩
  else playRest device hwparams count playing
termination_by playing.reader.buffer.length
decreasing_by
  have positive := chunkBytes_pos device hwparams
  change (playing.reader.buffer.drop (chunkBytes device hwparams)).length < playing.reader.buffer.length
  rw [List.length_drop]
  omega

def playbackGo (device : Device) (hwparams : Hwparams) (file : List UInt8) (loaded count : Nat)
    (audiobuf : List UInt8) : List UInt8 :=
  playLoaded device hwparams count ⟨⟨audiobuf.take loaded,file⟩,0,0,[]⟩

def AuHeader.sizeof : Nat := 24
def VocHeader.sizeof : Nat := 26

/-- No result is an exit. -/
def playback (device : Device) (bytes : List UInt8) : Option (List UInt8) := do
  let au := safeRead bytes AuHeader.sizeof
  if au.1.length ≠ AuHeader.sizeof then none
  else do
    let voc := safeRead au.2 (VocHeader.sizeof-AuHeader.sizeof)
    if voc.1.length ≠ VocHeader.sizeof-AuHeader.sizeof then none
    else do
      let audiobuf := au.1 ++ voc.1
      match ← testWavefile audiobuf voc.2 (2^63-1) with
      | none => pure []
      | some wave =>
        pure (playbackGo device wave.hwparams wave.file VocHeader.sizeof 137090
          (wave.leftover ++ audiobuf.drop wave.leftover.length))

section Writing
variable (device : Device) (hwparams : Hwparams)

theorem pcmWriteLoop_frames (data : List UInt8) (count call : Nat)
    (enough : count*hwparams.frameBytes ≤ data.length) :
    (pcmWriteLoop device hwparams.bitsPerFrame data count call).frames =
      data.take (count*hwparams.frameBytes) := by
  fun_induction pcmWriteLoop device hwparams.bitsPerFrame data count call with
  | case1 => simp
  | case2 data count call more r rest ih =>
    have part : r ≤ count := Nat.min_le_right _ _
    have bytes : count*hwparams.frameBytes = r*hwparams.frameBytes+(count-r)*hwparams.frameBytes := by
      rw [← Nat.add_mul,Nat.add_sub_cancel' part]
    have rest_frames : rest.frames =
        (data.drop (r*hwparams.bitsPerFrame/8)).take ((count-r)*hwparams.frameBytes) := by
      apply ih
      rw [mul_bitsPerFrame,List.length_drop]
      omega
    change data.take (r*hwparams.bitsPerFrame/8) ++ rest.frames = _
    rw [rest_frames,mul_bitsPerFrame,bytes,List.take_add]

theorem formatSetSilence_eq (frames : Nat) : formatSetSilence hwparams.format (frames*hwparams.channels) =
    List.replicate (frames*hwparams.frameBytes) hwparams.format.silence := by
  rw [formatSetSilence,← mul_bitsPerFrame,Hwparams.bitsPerFrame,Nat.mul_assoc,
    Nat.mul_comm hwparams.channels]

theorem pcmWrite_frames {data : List UInt8} {count : Nat} (calls : Nat) (fits : count ≤ device.chunkSize)
    (enough : count*hwparams.frameBytes ≤ data.length) :
    (pcmWrite device hwparams data count calls).frames = data.take (count*hwparams.frameBytes) ++
      List.replicate ((device.chunkSize-count)*hwparams.frameBytes) hwparams.format.silence := by
  unfold pcmWrite
  rcases Nat.lt_or_eq_of_le fits with short | full
  · have bytes : device.chunkSize*hwparams.frameBytes =
        count*hwparams.frameBytes+(device.chunkSize-count)*hwparams.frameBytes := by
      rw [← Nat.add_mul,Nat.add_sub_cancel' fits]
    have length : (data.take (count*hwparams.frameBytes) ++
        List.replicate ((device.chunkSize-count)*hwparams.frameBytes) hwparams.format.silence).length =
          device.chunkSize*hwparams.frameBytes := by
      rw [List.length_append,List.length_take,List.length_replicate,bytes,Nat.min_eq_left enough]
    rw [if_pos short,formatSetSilence_eq,mul_bitsPerFrame,
      pcmWriteLoop_frames device hwparams _ _ _ (Nat.le_of_eq length.symm)]
    exact List.take_of_length_le (Nat.le_of_eq length)
  · rw [if_neg (Nat.not_lt.mpr (Nat.le_of_eq full.symm)),pcmWriteLoop_frames device hwparams _ _ _ enough,full]
    simp

theorem chunkBytes_eq : chunkBytes device hwparams = device.chunkSize*hwparams.frameBytes := mul_bitsPerFrame _ _

theorem frameBytes_dvd_chunkBytes : hwparams.frameBytes ∣ chunkBytes device hwparams :=
  Dvd.intro_left _ (chunkBytes_eq device hwparams).symm

theorem pcmWrite_chunk {data : List UInt8} (calls : Nat) (enough : chunkBytes device hwparams ≤ data.length) :
    (pcmWrite device hwparams data device.chunkSize calls).frames = data.take (chunkBytes device hwparams) := by
  rw [chunkBytes_eq] at enough ⊢
  rw [pcmWrite_frames device hwparams calls (Nat.le_refl _) enough,Nat.sub_self,Nat.zero_mul,
    List.replicate_zero,List.append_nil]

variable {buffer : List UInt8} (calls : Nat)

/-- playback_go stops at the chunk that the buffer does not fill. -/
theorem pcmWrite_buffer_iff (fits : buffer.length ≤ chunkBytes device hwparams) :
    (pcmWrite device hwparams buffer (buffer.length*8/hwparams.bitsPerFrame) calls).result =
      buffer.length*8/hwparams.bitsPerFrame ↔ buffer.length = chunkBytes device hwparams := by
  have positive := (bitsPerFrame_eq hwparams).left
  rw [chunkBytes_eq] at fits ⊢
  rw [pcmWrite_result,div_bitsPerFrame,max_eq_left_iff,Nat.le_div_iff_mul_le positive]
  exact ⟨fun enough => Nat.le_antisymm fits enough,fun same => Nat.le_of_eq same.symm⟩

theorem pcmWrite_short (short : buffer.length < chunkBytes device hwparams) :
    (pcmWrite device hwparams buffer (buffer.length*8/hwparams.bitsPerFrame) calls).frames =
      buffer.take (buffer.length/hwparams.frameBytes*hwparams.frameBytes) ++
        List.replicate (chunkBytes device hwparams-buffer.length/hwparams.frameBytes*hwparams.frameBytes)
          hwparams.format.silence := by
  have positive := (bitsPerFrame_eq hwparams).left
  rw [chunkBytes_eq] at short ⊢
  have few := Nat.le_of_lt ((Nat.div_lt_iff_lt_mul positive).mpr short)
  rw [div_bitsPerFrame,pcmWrite_frames device hwparams calls few (Nat.div_mul_le_self _ _),Nat.sub_mul]

end Writing

theorem stream_split {reader : Reader} {length : Nat} (within : reader.buffer.length ≤ length) :
    reader.stream.take length = reader.buffer ++ reader.file.take (length-reader.buffer.length) ∧
      reader.stream.drop length = reader.file.drop (length-reader.buffer.length) := by
  refine ⟨?_,?_⟩
  · rw [Reader.stream,List.take_append,List.take_of_length_le within]
  · rw [Reader.stream,List.drop_append,List.drop_eq_nil_of_le within,List.nil_append]

theorem fill_eq {chunkBytes left : Nat} {reader : Reader} (bound : left < 2^64)
    (within : reader.buffer.length ≤ min left chunkBytes) : fill chunkBytes left reader =
      ⟨reader.stream.take (min left chunkBytes),reader.stream.drop (min left chunkBytes)⟩ := by
  have read : ∀ reader : Reader, reader.buffer.length ≤ min left chunkBytes →
      safeRead reader.file (((min left chunkBytes : Nat)-reader.buffer.length : Int)%2^64).toNat =
        (reader.file.take (min left chunkBytes-reader.buffer.length),
          reader.file.drop (min left chunkBytes-reader.buffer.length)) := by
    intro reader within
    have missing : (((min left chunkBytes : Nat)-reader.buffer.length : Int)%2^64).toNat =
        min left chunkBytes-reader.buffer.length := by omega
    rw [missing,safeRead]
  fun_induction fill chunkBytes left reader with
  | case1 reader c full =>
    obtain ⟨take,drop⟩ := stream_split within
    have nothing : min left chunkBytes-reader.buffer.length = 0 := by omega
    rw [take,drop,nothing,List.take_zero,List.append_nil,List.drop_zero]
  | case2 reader c room r ended =>
    obtain ⟨take,drop⟩ := stream_split within
    have r_eq : r = _ := read reader within
    rw [r_eq,List.take_eq_nil_iff] at ended
    have file : reader.file = [] := by
      rcases ended with full | file
      · omega
      · exact file
    rw [take,drop,file,List.take_nil,List.drop_nil,List.append_nil,← file]
  | case3 reader c room r some_read short ih =>
    have r_eq : r = _ := read reader within
    have stream : Reader.stream ⟨reader.buffer ++ r.1,r.2⟩ = reader.stream := by
      rw [r_eq,Reader.stream,Reader.stream,List.append_assoc,List.take_append_drop]
    rw [stream] at ih
    apply ih
    rw [r_eq,List.length_append,List.length_take]
    omega
  | case4 reader c room r some_read full =>
    obtain ⟨take,drop⟩ := stream_split within
    have r_eq : r = _ := read reader within
    rw [take,drop,r_eq]

section Playing
variable (device : Device) (hwparams : Hwparams)

section Turn
variable {quota : Nat} (bound : quota < 2^64) {reader : Reader}
  (within : reader.buffer.length ≤ min quota (chunkBytes device hwparams)) (calls : Nat)
include bound within

theorem turn_short (more : 0 < quota) :
    let buffer := (fill (chunkBytes device hwparams) quota reader).buffer
    let write := pcmWrite device hwparams buffer (buffer.length*8/hwparams.bitsPerFrame) calls
    write.result ≠ buffer.length*8/hwparams.bitsPerFrame → write.frames =
      rendered (chunkBytes device hwparams) hwparams.frameBytes quota hwparams.format.silence reader.stream := by
  intro buffer write short
  have buffer_eq : buffer = reader.stream.take _ := congrArg Reader.buffer (fill_eq bound within)
  have fits : buffer.length ≤ chunkBytes device hwparams := by
    rw [buffer_eq,List.length_take]
    omega
  have under : buffer.length < chunkBytes device hwparams :=
    Nat.lt_of_le_of_ne fits ((pcmWrite_buffer_iff device hwparams calls fits).not.mp short)
  have written : write.frames = _ := pcmWrite_short device hwparams calls under
  have whole := take_short (buffer_eq ▸ under)
  rw [whole] at buffer_eq
  have part : content hwparams.frameBytes quota reader.stream =
      buffer.take (buffer.length/hwparams.frameBytes*hwparams.frameBytes) := by
    rw [content_eq,← buffer_eq]
  have length : (buffer.take (buffer.length/hwparams.frameBytes*hwparams.frameBytes)).length =
      buffer.length/hwparams.frameBytes*hwparams.frameBytes :=
    List.length_take_of_le (Nat.div_mul_le_self _ _)
  rw [rendered_last _ more (buffer_eq ▸ under),part,written,length]

theorem turn_full :
    let filled := fill (chunkBytes device hwparams) quota reader
    let write := pcmWrite device hwparams filled.buffer (filled.buffer.length*8/hwparams.bitsPerFrame) calls
    write.result = filled.buffer.length*8/hwparams.bitsPerFrame →
      chunkBytes device hwparams ≤ (reader.stream.take quota).length ∧
      filled.file = reader.stream.drop (chunkBytes device hwparams) ∧
      write.frames = reader.stream.take (chunkBytes device hwparams) ∧
      write.result*hwparams.bitsPerFrame/8 = chunkBytes device hwparams := by
  intro filled write full
  have buffer : filled.buffer = reader.stream.take _ := congrArg Reader.buffer (fill_eq bound within)
  have file : filled.file = reader.stream.drop _ := congrArg Reader.file (fill_eq bound within)
  have length : filled.buffer.length ≤ min quota (chunkBytes device hwparams) := by
    rw [buffer]
    exact List.length_take_le _ _
  have fills : filled.buffer.length = chunkBytes device hwparams :=
    (pcmWrite_buffer_iff device hwparams calls (by omega)).mp full
  have minimum : min quota (chunkBytes device hwparams) = chunkBytes device hwparams := by omega
  rw [minimum] at buffer file
  have frames : filled.buffer.length*8/hwparams.bitsPerFrame = device.chunkSize := by
    have positive := (bitsPerFrame_eq hwparams).left
    rw [fills,chunkBytes_eq,div_bitsPerFrame,Nat.mul_div_cancel _ positive]
  refine ⟨?_,file,?_,?_⟩
  · rw [buffer,List.length_take] at fills
    rw [List.length_take]
    omega
  · change (pcmWrite device hwparams filled.buffer (filled.buffer.length*8/hwparams.bitsPerFrame) calls).frames = _
    rw [frames,pcmWrite_chunk device hwparams calls (Nat.le_of_eq fills.symm),← buffer]
    exact List.take_of_length_le (Nat.le_of_eq fills)
  · rw [full,frames]
    rfl

end Turn

variable {count : Nat} (bound : count < 2^64)
include bound

theorem playRest_eq (playing : Playing)
    (within : playing.reader.buffer.length ≤ min (count-playing.written) (chunkBytes device hwparams)) :
    playRest device hwparams count playing = playing.submitted ++
      rendered (chunkBytes device hwparams) hwparams.frameBytes (count-playing.written) hwparams.format.silence
        playing.reader.stream := by
  have divides := frameBytes_dvd_chunkBytes device hwparams
  have positive := chunkBytes_pos device hwparams
  fun_induction playRest device hwparams count playing with
  | case1 playing more reader l write short =>
    have last : write.frames = _ := turn_short device hwparams (by omega) within playing.calls (by omega) short
    rw [last]
  | case2 playing more reader l write full ih =>
    obtain ⟨enough,file,block,bytes⟩ := turn_full device hwparams (by omega) within playing.calls (not_not.mp full)
    have rest : Reader.stream ⟨[],reader.file⟩ = playing.reader.stream.drop (chunkBytes device hwparams) := file
    have front : write.frames = _ := block
    have taken : write.result*hwparams.bitsPerFrame/8 = _ := bytes
    rw [ih (Nat.zero_le _),rendered_block _ divides positive enough,rest,taken,front,List.append_assoc,
      Nat.sub_add_eq]
  | case3 playing done =>
    have nothing : count-playing.written = 0 := by omega
    rw [nothing,rendered_zero,List.append_nil]

theorem playLoaded_eq (playing : Playing) (within : playing.reader.buffer.length ≤ count-playing.written) :
    playLoaded device hwparams count playing = playing.submitted ++
      rendered (chunkBytes device hwparams) hwparams.frameBytes (count-playing.written) hwparams.format.silence
        playing.reader.stream := by
  have divides := frameBytes_dvd_chunkBytes device hwparams
  have positive := chunkBytes_pos device hwparams
  fun_induction playLoaded device hwparams count playing with
  | case1 playing loaded write stuck =>
    have all : write.result = max device.chunkSize device.chunkSize := pcmWrite_result _ _ _ _ _
    have sized := device.sized
    omega
  | case2 playing loaded write some_frame ih =>
    have block : write.frames = playing.reader.stream.take (chunkBytes device hwparams) := by
      rw [Reader.stream,List.take_append_of_le_length (Nat.le_of_lt loaded.left)]
      exact pcmWrite_chunk device hwparams playing.calls (Nat.le_of_lt loaded.left)
    have stream : Reader.stream (playing.reader.move (chunkBytes device hwparams)) =
        playing.reader.stream.drop (chunkBytes device hwparams) :=
      (List.drop_append_of_le_length (Nat.le_of_lt loaded.left)).symm
    have left : (playing.reader.move (chunkBytes device hwparams)).buffer.length ≤
        count-(playing.written+chunkBytes device hwparams) := by
      rw [Reader.move,List.length_drop]
      omega
    have enough : chunkBytes device hwparams ≤
        (playing.reader.stream.take (count-playing.written)).length := by
      rw [List.length_take,Reader.stream,List.length_append]
      omega
    rw [ih left,rendered_block _ divides positive enough,stream,block,List.append_assoc,Nat.sub_add_eq]
  | case3 playing done =>
    apply playRest_eq device hwparams bound
    omega

theorem playbackGo_eq (file : List UInt8) {loaded : Nat} (first : loaded ≤ count) (audiobuf : List UInt8) :
    playbackGo device hwparams file loaded count audiobuf =
      rendered (chunkBytes device hwparams) hwparams.frameBytes count hwparams.format.silence
        (audiobuf.take loaded ++ file) := by
  have within : (audiobuf.take loaded).length ≤ count := Nat.le_trans (List.length_take_le _ _) first
  rw [playbackGo,playLoaded_eq device hwparams bound _ within,List.nil_append]
  rfl

end Playing

section Files
variable (wav : Riff.Wav)

theorem physicalWidth_of (big : Bool) (format : Riff.Format) :
    (pcmFormatOf big format).physicalWidth = 8*format.sample.size := by
  unfold pcmFormatOf
  cases format.sample with
  | bits32 => cases format.float <;> rfl
  | _ => rfl

theorem frameBytes_eq : (hwparamsOf wav.big wav.format).frameBytes = wav.format.frameSize := by
  have bits : (hwparamsOf wav.big wav.format).bitsPerFrame = 8*wav.format.frameSize := by
    rw [Hwparams.bitsPerFrame,hwparamsOf,physicalWidth_of,Riff.Format.frameSize,Nat.mul_assoc,
      Nat.mul_comm wav.format.channels]
  rw [Hwparams.frameBytes,bits,Nat.mul_div_cancel_left _ (by decide)]

theorem silence_eq : (hwparamsOf wav.big wav.format).format.silence = wav.format.sample.silence := by
  unfold hwparamsOf pcmFormatOf
  cases wav.format.sample with
  | bits32 => cases wav.format.float <;> rfl
  | _ => rfl

/-- What the loops get to play: the bytes that playback has read to recognise the file, and
what is behind the header of the `data` chunk. -/
def loadedBytes : List UInt8 := wav.bytes.take VocHeader.sizeof ++ wav.sound

theorem bytes_long : VocHeader.sizeof ≤ wav.bytes.length := by
  have format := body_length wav.big wav.format
  rw [bytes_length,wav.content_length,VocHeader.sizeof]
  omega

theorem playback_wav (device : Device) : playback device wav.bytes =
    some (rendered (device.chunkSize*wav.format.frameSize) wav.format.frameSize 137090 wav.format.sample.silence
      (loadedBytes wav)) := by
  have long : 26 ≤ wav.bytes.length := bytes_long wav
  have split : wav.bytes = wav.bytes.take 26 ++ wav.bytes.drop 26 := (List.take_append_drop _ _).symm
  have head : (wav.bytes.take 26).length = 26 := List.length_take_of_le (by omega)
  obtain ⟨count,found⟩ := testWavefile_wav split head (2^63-1)
  have au : (wav.bytes.take 24).length = 24 := List.length_take_of_le (by omega)
  have voc : ((wav.bytes.drop 24).take 2).length = 2 := by
    rw [List.length_take,List.length_drop]
    omega
  have audiobuf : wav.bytes.take 24 ++ (wav.bytes.drop 24).take 2 = wav.bytes.take 26 := List.take_add.symm
  have rest : (wav.bytes.drop 24).drop 2 = wav.bytes.drop 26 := List.drop_drop
  have chunk : chunkBytes device (hwparamsOf wav.big wav.format) = device.chunkSize*wav.format.frameSize := by
    rw [chunkBytes,mul_bitsPerFrame,frameBytes_eq]
  have played := playbackGo_eq device (hwparamsOf wav.big wav.format) (by decide : 137090 < 2^64) wav.sound
    (by decide : 26 ≤ 137090) (wav.bytes.take 26)
  rw [chunk,frameBytes_eq,silence_eq,List.take_of_length_le (Nat.le_of_eq head)] at played
  simp only [playback,safeRead,AuHeader.sizeof,VocHeader.sizeof,au,voc,audiobuf,rest,found,ne_eq,not_true_eq_false,
    if_false,Option.bind_eq_bind,Option.bind_some,Nat.reduceSub,List.length_nil,List.drop_zero,List.nil_append]
  exact congrArg some played

theorem chunk_pos (device : Device) : 0 < device.chunkSize*wav.format.frameSize := by
  rw [← frameBytes_eq]
  exact Nat.mul_pos device.sized (bitsPerFrame_eq _).left

/-- The device gets the data of the file, and silence after it. -/
def Plays (device : Device) : Prop :=
  ∃ more, playback device wav.bytes = some (wav.data ++ List.replicate more wav.format.sample.silence)

theorem plays_iff (device : Device) : Plays wav device ↔
    wav.data.length ≤ size (device.chunkSize*wav.format.frameSize) 137090 (loadedBytes wav) ∧
      ∀ i, wav.data.getD i wav.format.sample.silence =
        (content wav.format.frameSize 137090 (loadedBytes wav)).getD i wav.format.sample.silence := by
  have fits := content_le_size wav.format.frameSize 137090 (chunk_pos wav device) (loadedBytes wav)
  simp only [Plays,playback_wav,Option.some.injEq,rendered,filled_iff,Nat.add_sub_cancel' fits]

/-- The bytes in whole frames among the first 137090 that the loops get. -/
def playedBytes : Nat := min 137090 (VocHeader.sizeof+wav.sound.length)/wav.format.frameSize*wav.format.frameSize

/-- The data repeat the first 26 bytes of their own file, as far as the frames played go;
what they are longer is silence, and so is what else is in these frames. -/
structure RepeatsHeader (device : Device) : Prop where
  repeats : ∀ i < wav.data.length, i < playedBytes wav → wav.data.getD i wav.format.sample.silence =
    if i < VocHeader.sizeof then wav.bytes.getD i wav.format.sample.silence
    else wav.data.getD (i-VocHeader.sizeof) wav.format.sample.silence
  longer : ∀ i < wav.data.length, playedBytes wav ≤ i →
    wav.data.getD i wav.format.sample.silence = wav.format.sample.silence
  behind : ∀ i < playedBytes wav, wav.data.length ≤ i →
    (if i < VocHeader.sizeof then wav.bytes.getD i wav.format.sample.silence
    else wav.sound.getD (i-VocHeader.sizeof) wav.format.sample.silence) = wav.format.sample.silence
  fits : wav.data.length ≤ (137090+device.chunkSize*wav.format.frameSize-1)/
    (device.chunkSize*wav.format.frameSize)*(device.chunkSize*wav.format.frameSize)

theorem header_length : (wav.bytes.take VocHeader.sizeof).length = VocHeader.sizeof :=
  List.length_take_of_le (bytes_long wav)

theorem loadedBytes_getD (i : Nat) (filler : UInt8) : (loadedBytes wav).getD i filler =
    if i < VocHeader.sizeof then wav.bytes.getD i filler else wav.sound.getD (i-VocHeader.sizeof) filler := by
  have length := header_length wav
  rw [loadedBytes]
  by_cases header : i < VocHeader.sizeof
  · rw [if_pos header,List.getD_append _ _ _ _ (length.symm ▸ header)]
    simp [List.getD_eq_getElem?_getD,header]
  · rw [if_neg header,List.getD_append_right _ _ _ _ (length.symm ▸ Nat.not_lt.mp header),length]

theorem playedBytes_getD (i : Nat) (filler : UInt8) :
    (content wav.format.frameSize 137090 (loadedBytes wav)).getD i filler =
      if i < playedBytes wav then
        if i < VocHeader.sizeof then wav.bytes.getD i filler else wav.sound.getD (i-VocHeader.sizeof) filler
      else filler := by
  have length : ((loadedBytes wav).take 137090).length = min 137090 (VocHeader.sizeof+wav.sound.length) := by
    rw [List.length_take,loadedBytes,List.length_append,header_length]
  rw [content_getD,length,loadedBytes_getD]
  rfl

theorem playback_data_iff (device : Device) : Plays wav device ↔ RepeatsHeader wav device := by
  have within : wav.data.length ≤ (loadedBytes wav).length := by
    rw [loadedBytes,List.length_append]
    exact Nat.le_trans (data_le_sound wav) (Nat.le_add_left _ _)
  have inner : ∀ i < wav.data.length, ∀ filler, wav.sound.getD (i-VocHeader.sizeof) filler =
      wav.data.getD (i-VocHeader.sizeof) filler :=
    fun i inside filler => List.getD_append _ _ _ _ (Nat.lt_of_le_of_lt (Nat.sub_le _ _) inside)
  rw [plays_iff,le_size_iff (chunk_pos wav device) within]
  simp only [playedBytes_getD]
  constructor
  · rintro ⟨fits,same⟩
    refine ⟨?_,?_,?_,fits⟩
    · intro i inside played
      rw [same i,if_pos played,inner i inside]
    · intro i inside past
      rw [same i,if_neg (Nat.not_lt.mpr past)]
    · intro i played past
      have silent := same i
      rw [List.getD_eq_default _ _ past,if_pos played] at silent
      exact silent.symm
  · rintro ⟨repeats,longer,behind,fits⟩
    refine ⟨fits,fun i => ?_⟩
    rcases Nat.lt_or_ge i wav.data.length with inside | past
    · rcases Nat.lt_or_ge i (playedBytes wav) with played | unplayed
      · rw [if_pos played,inner i inside,repeats i inside played]
      · rw [if_neg (Nat.not_lt.mpr unplayed),longer i inside unplayed]
    · rcases Nat.lt_or_ge i (playedBytes wav) with played | unplayed
      · rw [List.getD_eq_default _ _ past,if_pos played,behind i played past]
      · rw [List.getD_eq_default _ _ past,if_neg (Nat.not_lt.mpr unplayed)]

end Files

def beep : Riff.Wav where
  big := false
  before := []
  format := ⟨false,.bits8,1,8000,8000,none,[],by decide,by decide,by decide,nofun⟩
  formatPad := []
  between := []
  data := [1,2,3,4]
  dataPad := []
  after := []
  others := nofun
  formatPadded := by decide
  dataPadded := by decide
  frames := by decide
  fits := by decide

def speaker : Device := ⟨1024,fun _ => 1024,by decide,fun call => ⟨call,Nat.le_refl _,by decide⟩⟩

theorem beep_misplayed : ¬Plays beep speaker := by
  rintro ⟨more,played⟩
  rw [playback_wav] at played
  have first := congrArg List.head? (Option.some.inj played)
  have header : (rendered (speaker.chunkSize*beep.format.frameSize) beep.format.frameSize 137090
      beep.format.sample.silence (loadedBytes beep)).head? = some 0x52 := by decide +kernel
  rw [header] at first
  have data : some (0x52 : UInt8) = some 1 := first
  exact absurd data (by decide)

end Libsme.Audio
