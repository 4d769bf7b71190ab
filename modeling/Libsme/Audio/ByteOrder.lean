import Libsme.Audio.WorkBuffer

/-! test_wavefile on the two streams of one list of chunks, little-endian under RIFF and
big-endian under RIFX. Both take the same turns, and only the sample formats tell them apart. -/
namespace Libsme.Audio
open Semantics
open Semantics.Riff (Item ItemChunk FmtItems FmtNumbers Wave encode encodeChunks)
open Memory (fetch)
open Semantics.Rfc4648 (ascii)

def PcmFormat.withOrder (big : Bool) : PcmFormat → PcmFormat
  | .u8 => .u8
  | .s16 _ => .s16 big
  | .s24In3 _ => .s24In3 big
  | .s24 _ => .s24 big
  | .s32 _ => .s32 big
  | .float _ => .float big

def Hwparams.withOrder (big : Bool) (hwparams : Hwparams) : Hwparams :=
  {hwparams with format := hwparams.format.withOrder big}

theorem pad_size (chunk : ItemChunk) : pad chunk.length = Riff.size chunk.items := by
  rw [pad,← chunk.padded]
  exact Nat.mod_eq_of_lt chunk.small

theorem length_lt (chunk : ItemChunk) : chunk.length < 256^4 :=
  Nat.lt_of_le_of_lt (Nat.le_add_right _ _) (chunk.padded ▸ chunk.small)

theorem take_header {id number rest : List UInt8} {cut : Nat} (named : id.length = 4) (width : number.length = 4)
    (there : 8 ≤ cut) : (id ++ (number ++ rest)).take cut = id ++ (number ++ rest.take (cut-8)) := by
  have header : (id ++ number).length = 8 := by rw [List.length_append,named,width]
  rw [← List.append_assoc,List.take_append,header,List.take_of_length_le (by omega),List.append_assoc]

theorem header_read (big : Bool) (chunk : ItemChunk) (rest : List UInt8) {cut : Nat} (held : Nat) (there : 8 ≤ cut) :
    fetch (Reader.of ((chunk.bytes big ++ rest).take cut) (max held 8)).buffer 0 4 = chunk.id ∧
      toCpu (fetch (Reader.of ((chunk.bytes big ++ rest).take cut) (max held 8)).buffer 4 4) big = chunk.length ∧
      (Reader.of ((chunk.bytes big ++ rest).take cut) (max held 8)).move 8 =
        .of ((encode big chunk.items ++ rest).take (cut-8)) (held-8) := by
  have parts : (chunk.bytes big ++ rest).take cut = chunk.id ++ (Riff.field big 4 chunk.length ++
      (encode big chunk.items ++ rest).take (cut-8)) := by
    rw [Riff.ItemChunk.bytes,List.append_assoc,List.append_assoc]
    exact take_header chunk.named (Riff.field_length _ _ _) there
  refine ⟨?_,?_,?_⟩
  · rw [Reader.of,Memory.fetch_take _ (by omega),parts]
    exact Memory.fetch_of_split (List.nil_append _).symm List.length_nil chunk.named
  · rw [Reader.of,Memory.fetch_take _ (by omega),parts]
    exact toCpu_fetch rfl chunk.named (length_lt chunk)
  · rw [move_of _ _ _ (Nat.le_max_right _ _),parts,← List.append_assoc,List.drop_left' (by simp [chunk.named])]
    congr 1
    omega

theorem body_moved (big : Bool) (items : List Item) (rest : List UInt8) (left ahead : Nat) :
    (Reader.of ((encode big items ++ rest).take left) (max ahead (Riff.size items))).move (Riff.size items) =
      .of (rest.take (left-Riff.size items)) (ahead-Riff.size items) := by
  rw [move_of _ _ _ (Nat.le_max_right _ _),List.drop_take,List.drop_left' (Riff.encode_length _ _)]
  congr 1
  omega

/-- What a turn does with the chunk that the stream starts with. -/
theorem seekChunk_turn (wanted : List UInt8) (big : Bool) (turns : Nat) (chunk : ItemChunk) (rest : List UInt8)
    {cut held : Nat} (inside : held ≤ ((chunk.bytes big ++ rest).take cut).length) :
    seekChunk wanted big (turns+1) (.of ((chunk.bytes big ++ rest).take cut) held) =
      if cut < 8 then none
      else if chunk.id = wanted then
        some (chunk.length,.of ((encode big chunk.items ++ rest).take (cut-8)) (held-8))
      else if cut-8 < Riff.size chunk.items then none
      else seekChunk wanted big turns (.of (rest.take (cut-8-Riff.size chunk.items)) (held-8-Riff.size chunk.items)) := by
  have whole : (chunk.bytes big ++ rest).length = 8+Riff.size chunk.items+rest.length := by
    rw [List.length_append,chunk.bytes_length]
  have length : ((chunk.bytes big ++ rest).take cut).length = min cut (8+Riff.size chunk.items+rest.length) := by
    rw [List.length_take,whole]
  rw [seekChunk,testWavefileRead_of _ _ inside]
  by_cases early : cut < 8
  · rw [if_pos early,if_neg (by omega)]
    rfl
  rw [if_neg early,if_pos (by omega)]
  obtain ⟨type,len,moved⟩ := header_read big chunk rest held (Nat.le_of_not_lt early)
  simp only [Option.bind_eq_bind,Option.bind_some,type,len,moved,pad_size]
  split
  · rfl
  have body : ((encode big chunk.items ++ rest).take (cut-8)).length = min (cut-8) (Riff.size chunk.items+rest.length) := by
    rw [List.length_take,List.length_append,Riff.encode_length]
  rw [testWavefileRead_of _ _ (by omega)]
  by_cases ended : cut-8 < Riff.size chunk.items
  · rw [if_pos ended,if_neg (by omega)]
    rfl
  · rw [if_neg ended,if_pos (by omega),Option.bind_some,body_moved]

/-- Either order of bytes leads to the same chunk, or to none. -/
theorem seekChunk_uniform (wanted : List UInt8) (turns : Nat) (chunks : List ItemChunk) {cut held : Nat}
    (inside : ∀ big, held ≤ ((encodeChunks big chunks).take cut).length) :
    (∀ big, seekChunk wanted big turns (.of ((encodeChunks big chunks).take cut) held) = none) ∨
      ∃ chunk : ItemChunk, chunk.id = wanted ∧ ∃ after left ahead,
        (∀ big, ahead ≤ ((encode big chunk.items ++ encodeChunks big after).take left).length) ∧
        ∀ big, seekChunk wanted big turns (.of ((encodeChunks big chunks).take cut) held) =
          some (chunk.length,.of ((encode big chunk.items ++ encodeChunks big after).take left) ahead) := by
  induction chunks generalizing turns cut held with
  | nil =>
    left
    intro big
    cases turns with
    | zero => rfl
    | succ turns =>
      rw [seekChunk,testWavefileRead_of _ _ (inside big),if_neg (by simp [encodeChunks])]
      rfl
  | cons chunk chunks ih =>
    cases turns with
    | zero => exact .inl fun _ => rfl
    | succ turns =>
      have split : ∀ big, encodeChunks big (chunk::chunks) = chunk.bytes big ++ encodeChunks big chunks := fun _ => rfl
      have length : ∀ big, held ≤ min cut (8+Riff.size chunk.items+(encodeChunks big chunks).length) := by
        intro big
        have bound := inside big
        rwa [split,List.length_take,List.length_append,chunk.bytes_length] at bound
      have turn := fun big => seekChunk_turn wanted big turns chunk (encodeChunks big chunks) (inside big)
      by_cases early : cut < 8
      · exact .inl fun big => (turn big).trans (if_pos early)
      by_cases found : chunk.id = wanted
      · refine .inr ⟨chunk,found,chunks,cut-8,held-8,?_,?_⟩
        · intro big
          have bound := length big
          rw [List.length_take,List.length_append,Riff.encode_length]
          omega
        · intro big
          rw [split,turn,if_neg early,if_pos found]
      by_cases ended : cut-8 < Riff.size chunk.items
      · left
        intro big
        rw [split,turn,if_neg early,if_neg found,if_pos ended]
      · have next : ∀ big, held-8-Riff.size chunk.items ≤
            ((encodeChunks big chunks).take (cut-8-Riff.size chunk.items)).length := by
          intro big
          have bound := length big
          rw [List.length_take]
          omega
        have skips : ∀ big, seekChunk wanted big (turns+1) (.of ((encodeChunks big (chunk::chunks)).take cut) held) =
            seekChunk wanted big turns (.of ((encodeChunks big chunks).take (cut-8-Riff.size chunk.items))
              (held-8-Riff.size chunk.items)) := by
          intro big
          rw [split,turn,if_neg early,if_neg found,if_neg ended]
        simp only [skips]
        exact ih turns next

theorem pcmFormat_order (big : Bool) (format channels bits frame : Nat) :
    pcmFormat big format channels bits frame =
      (pcmFormat false format channels bits frame).map (PcmFormat.withOrder big) := by
  unfold pcmFormat
  split
  · rfl
  · rfl
  · split <;> rfl
  · split <;> rfl
  · rfl

theorem FmtFields.params_order (big : Bool) (fields : FmtFields) (format : Nat) :
    fields.params big format = (fields.params false format).map (Hwparams.withOrder big) := by
  unfold FmtFields.params
  split
  · rfl
  split
  · rfl
  rw [pcmFormat_order big]
  cases pcmFormat false format fields.channels fields.bitPSpl fields.bytePSpl <;> rfl

section Numbers
variable (big : Bool) {before : List Item} {start : Nat}

theorem toCpu_short (number : UInt16) (rest : List Item) (begins : Riff.size before = start) :
    toCpu (fetch (encode big (before ++ .short number::rest)) start 2) big = number.toNat := by
  have split : encode big (before ++ .short number::rest) =
      encode big before ++ (Riff.field big 2 number.toNat ++ encode big rest) := by
    simp only [encode,List.flatMap_append,List.flatMap_cons,Riff.Item.encode]
  exact toCpu_fetch split ((Riff.encode_length _ _).trans begins) number.toNat_lt

theorem toCpu_int (number : UInt32) (rest : List Item) (begins : Riff.size before = start) :
    toCpu (fetch (encode big (before ++ .int number::rest)) start 4) big = number.toNat := by
  have split : encode big (before ++ .int number::rest) =
      encode big before ++ (Riff.field big 4 number.toNat ++ encode big rest) := by
    simp only [encode,List.flatMap_append,List.flatMap_cons,Riff.Item.encode]
  exact toCpu_fetch split ((Riff.encode_length _ _).trans begins) number.toNat_lt

theorem fetch_raw (block : List UInt8) (rest : List Item) (begins : Riff.size before = start) :
    fetch (encode big (before ++ .raw block::rest)) start block.length = block := by
  have split : encode big (before ++ .raw block::rest) = encode big before ++ (block ++ encode big rest) := by
    simp only [encode,List.flatMap_append,List.flatMap_cons,Riff.Item.encode]
  exact Memory.fetch_of_split split ((Riff.encode_length _ _).trans begins) rfl

end Numbers

theorem read_numbers (big : Bool) (numbers : FmtNumbers) (rest : List Item) :
    FmtFields.read big (encode big (numbers.items ++ rest)) =
      ⟨numbers.format.toNat,numbers.channels.toNat,numbers.rate.toNat,numbers.frameSize.toNat,numbers.bits.toNat,
        toCpu (fetch (encode big (numbers.items ++ rest)) 24 2) big,fetch (encode big (numbers.items ++ rest)) 26 14⟩ := by
  have format := @toCpu_short big [] 0 numbers.format (numbers.items.tail ++ rest) rfl
  have channels := @toCpu_short big [.short numbers.format] 2 numbers.channels (numbers.items.tail.tail ++ rest) rfl
  have rate := @toCpu_int big (numbers.items.take 2) 4 numbers.rate (numbers.items.drop 3 ++ rest) rfl
  have frame := @toCpu_short big (numbers.items.take 4) 12 numbers.frameSize (numbers.items.drop 5 ++ rest) rfl
  have bits := @toCpu_short big (numbers.items.take 5) 14 numbers.bits rest rfl
  rw [FmtFields.read,FmtFields.mk.injEq]
  exact ⟨format,channels,rate,frame,bits,rfl,rfl⟩

/-- What a `fmt ` chunk of sufficient length says does not depend on the order of bytes. -/
theorem testFmt_uniform {items : List Item} (formatted : FmtItems items) (sized : 16 ≤ Riff.size items) :
    ∃ found : Option Hwparams, ∀ big,
      testFmt big (Riff.size items) (encode big items) = found.map (Hwparams.withOrder big) := by
  suffices uniform : ∃ fields : FmtFields, ∀ big,
      (FmtFields.read big (encode big items)).tag (Riff.size items) = fields.tag (Riff.size items) ∧
      ∀ format, (FmtFields.read big (encode big items)).params big format = fields.params big format by
    obtain ⟨fields,same⟩ := uniform
    refine ⟨(fields.tag (Riff.size items)).bind (fields.params false),fun big => ?_⟩
    obtain ⟨tag,params⟩ := same big
    rw [testFmt_fields,tag,Option.map_bind]
    congr 1
    funext format
    exact (params format).trans (fields.params_order big format)
  cases formatted with
  | short few => omega
  | plain numbers rest other =>
    refine ⟨⟨numbers.format.toNat,numbers.channels.toNat,numbers.rate.toNat,numbers.frameSize.toNat,
      numbers.bits.toNat,0,[]⟩,fun big => ?_⟩
    rw [read_numbers]
    refine ⟨?_,fun _ => rfl⟩
    rcases other with plain | short
    · have differs : numbers.format.toNat ≠ wavFmtExtensible := fun same => plain (UInt16.toNat_inj.mp same)
      simp only [FmtFields.tag,if_neg differs]
    · simp only [FmtFields.tag,if_pos short]
  | extensible numbers extension guid rest guidLength =>
    refine ⟨⟨numbers.format.toNat,numbers.channels.toNat,numbers.rate.toNat,numbers.frameSize.toNat,
      numbers.bits.toNat,extension.format.toNat,guid⟩,fun big => ?_⟩
    have guidFormat := @toCpu_short big (numbers.items ++ extension.items.take 3) 24 extension.format
      (.raw guid::rest) rfl
    have guidTag := @fetch_raw big (numbers.items ++ extension.items) 26 guid rest rfl
    rw [List.append_assoc] at guidFormat guidTag
    rw [guidLength] at guidTag
    rw [read_numbers]
    refine ⟨?_,fun _ => rfl⟩
    change FmtFields.tag _ ⟨_,_,_,_,_,toCpu (fetch (encode big (numbers.items ++ (extension.items.take 3 ++
      .short extension.format::.raw guid::rest))) 24 2) big,_⟩ = _
    rw [guidFormat,guidTag]

theorem wave_length (big : Bool) (wave : Wave) : (wave.bytes big).length = (wave.bytes false).length := by
  simp only [Wave.bytes,List.length_take,List.length_append,magic_length,Riff.field_length,Riff.encodeChunks_length]

theorem wave_split (big : Bool) (wave : Wave) (there : 12 ≤ (wave.bytes big).length) :
    wave.bytes big = Riff.Wav.magic big ++ (Riff.field big 4 wave.riffLength.toNat ++
      (ascii "WAVE" ++ (encodeChunks big wave.chunks).take (wave.cut-12))) := by
  have enough : 12 ≤ wave.cut := there.trans (List.length_take_le _ _)
  have header : (Riff.Wav.magic big ++ Riff.field big 4 wave.riffLength.toNat ++ ascii "WAVE").length = 12 := by
    have wave : (ascii "WAVE").length = 4 := by decide
    simp [magic_length,wave]
  rw [Wave.bytes,← List.append_assoc,← List.append_assoc,List.take_append,header,
    List.take_of_length_le (header.trans_le enough),List.append_assoc,List.append_assoc]

theorem body_read (big : Bool) (items : List Item) (rest : List UInt8) {left ahead : Nat}
    (there : Riff.size items ≤ ((encode big items ++ rest).take left).length) (sized : 16 ≤ Riff.size items) :
    testFmt big (Riff.size items) (Reader.of ((encode big items ++ rest).take left) (max ahead (Riff.size items))).buffer =
      testFmt big (Riff.size items) (encode big items) := by
  have enough : Riff.size items ≤ left := there.trans (List.length_take_le _ _)
  rw [← testFmt_take big sized,Reader.of,List.take_take,Nat.min_eq_left (Nat.le_max_right _ _),List.take_take,
    Nat.min_eq_left enough,List.take_left' (Riff.encode_length _ _)]

/-- The outcomes for the two orders of bytes: two exits, two refusals, or parameters that
differ in the order of bytes only. -/
def Uniform (outcome : Bool → Option (Option Wavefile)) : Prop :=
  (∀ big, outcome big = none) ∨ (∀ big, outcome big = some none) ∨
    ∃ hwparams count left, ∀ big, ∃ leftover file, leftover.length = left ∧
      outcome big = some (some ⟨leftover,file,Hwparams.withOrder big hwparams,count⟩)

theorem testChunks_uniform (chunks : List ItemChunk) (turns pbrecCount : Nat) {cut held : Nat}
    (inside : ∀ big, held ≤ ((encodeChunks big chunks).take cut).length) :
    Uniform fun big => testChunks big turns pbrecCount (.of ((encodeChunks big chunks).take cut) held) := by
  rcases seekChunk_uniform (ascii "fmt ") turns chunks inside with ended | ⟨chunk,named,after,left,ahead,there,format⟩
  · left
    intro big
    simp only [testChunks,ended,Option.bind_eq_bind,Option.bind_none]
  by_cases few : Riff.size chunk.items < 16
  · left
    intro big
    simp only [testChunks,format,pad_size,if_pos few,Option.bind_eq_bind,Option.bind_some]
  obtain ⟨more,behind⟩ : ∃ more, ∀ big, (encodeChunks big after).length = more :=
    ⟨_,fun big => Riff.encodeChunks_length big after⟩
  have length : ∀ big, ((encode big chunk.items ++ encodeChunks big after).take left).length =
      min left (Riff.size chunk.items+more) := by
    intro big
    rw [List.length_take,List.length_append,Riff.encode_length,behind]
  by_cases missing : ¬Riff.size chunk.items ≤ min left (Riff.size chunk.items+more)
  · left
    intro big
    simp only [testChunks,format,pad_size,if_neg few,testWavefileRead_of _ _ (there big),length,if_neg missing,
      Option.bind_eq_bind,Option.bind_some,Option.bind_none]
  have body := fun big => @body_read big chunk.items (encodeChunks big after) left ahead
    (by rw [length]; exact not_not.mp missing) (Nat.le_of_not_lt few)
  obtain ⟨found,params⟩ := testFmt_uniform (chunk.formatted named) (Nat.le_of_not_lt few)
  rcases found with _ | hwparams
  · left
    intro big
    simp only [testChunks,format,pad_size,if_neg few,testWavefileRead_of _ _ (there big),length,
      if_pos (not_not.mp missing),body,params,Option.map_none,Option.bind_eq_bind,Option.bind_some,
      Option.bind_none]
  have next : ∀ big, ahead-Riff.size chunk.items ≤
      ((encodeChunks big after).take (left-Riff.size chunk.items)).length := by
    intro big
    have bound := there big
    rw [length] at bound
    rw [List.length_take,behind]
    omega
  rcases seekChunk_uniform (ascii "data") turns after next with ended | ⟨data,-,rest,remaining,beyond,fits,found⟩
  · left
    intro big
    simp only [testChunks,format,pad_size,if_neg few,testWavefileRead_of _ _ (there big),length,
      if_pos (not_not.mp missing),body,body_moved,params,ended,Option.map_some,Option.bind_eq_bind,
      Option.bind_some,Option.bind_none]
  · refine .inr (.inr ⟨hwparams,if data.length < pbrecCount ∧ data.length < 0x7FFFFFFE then data.length else pbrecCount,
      beyond,fun big => ⟨_,((encode big data.items ++ encodeChunks big rest).take remaining).drop beyond,
        List.length_take_of_le (fits big),?_⟩⟩)
    simp only [testChunks,format,pad_size,if_neg few,testWavefileRead_of _ _ (there big),length,
      if_pos (not_not.mp missing),body,body_moved,params,found,Option.map_some,Option.bind_eq_bind,
      Option.bind_some]
    rfl

theorem testWavefile_uniform (wave : Wave) (size pbrecCount : Nat) :
    Uniform fun big => testWavefile ((wave.bytes big).take size) ((wave.bytes big).drop size) pbrecCount := by
  obtain ⟨total,length⟩ : ∃ total, ∀ big, (wave.bytes big).length = total := ⟨_,fun big => wave_length big wave⟩
  obtain ⟨held,is_held⟩ : ∃ held, held = min size total := ⟨_,rfl⟩
  have buffered : ∀ big, ((wave.bytes big).take size).length = held := fun big => by
    rw [List.length_take,length,is_held]
  by_cases short : held < 12
  · refine .inr (.inl fun big => ?_)
    dsimp only
    rw [testWavefile,buffered,if_pos short]
  have split : ∀ big, Riff.Wav.magic big ++ (Riff.field big 4 wave.riffLength.toNat ++
      (ascii "WAVE" ++ (encodeChunks big wave.chunks).take (wave.cut-12))) =
      (wave.bytes big).take size ++ (wave.bytes big).drop size := fun big => by
    rw [List.take_append_drop,← wave_split big wave (by rw [length]; omega)]
  have header : ∀ big, 12 ≤ ((wave.bytes big).take size).length := fun big => by
    rw [buffered]
    exact Nat.le_of_not_lt short
  have start : ∀ big, (⟨((wave.bytes big).take size).drop 12,(wave.bytes big).drop size⟩ : Reader) =
      .of ((encodeChunks big wave.chunks).take (wave.cut-12)) (held-12) := fun big => by
    rw [of_stream ⟨_,_⟩,Reader.stream,(header_fetched (split big) (header big)).2.2,List.length_drop,buffered]
  have inside : ∀ big, held-12 ≤ ((encodeChunks big wave.chunks).take (wave.cut-12)).length := fun big => by
    have content := congrArg List.length (header_fetched (split big) (header big)).2.2
    rw [List.length_append,List.length_drop,buffered] at content
    omega
  have turns : ∀ big, held+((wave.bytes big).drop size).length = total := fun big => by
    rw [List.length_drop,length]
    omega
  simp only [testWavefile_header (split _) (header _),buffered,turns,start]
  exact testChunks_uniform wave.chunks total pbrecCount inside

/-- What the two calls have in common, and how their formats differ. -/
inductive Agree : Option (Option WorkBuffer.Returned) → Option (Option WorkBuffer.Returned) → Prop where
  | exited : Agree none none
  | refused : Agree (some none) (some none)
  | accepted {little big : WorkBuffer.Returned} {format : PcmFormat} (result : little.result = big.result)
      (channels : little.hwparams.channels = big.hwparams.channels) (rate : little.hwparams.rate = big.hwparams.rate)
      (count : little.pbrecCount = big.pbrecCount) (formatLe : little.hwparams.format = format.withOrder false)
      (formatBe : big.hwparams.format = format.withOrder true) : Agree (some (some little)) (some (some big))

/-- test_wavefile treats a list of chunks alike in either order of bytes, however each of
the two streams is read. -/
theorem testWavefile_agrees (wave : Wave) (size pbrecCount : Nat) (system : Bool → WorkBuffer.System)
    (room : Bool → List UInt8) (calls : Bool → Nat) :
    let outcome := fun big => (WorkBuffer.testWavefile (system big) ((wave.bytes big).take size ++ room big)
      ((wave.bytes big).take size).length ⟨(wave.bytes big).drop size,calls big⟩ pbrecCount).run.value
    Agree (outcome false) (outcome true) := by
  intro outcome
  have erased : ∀ big, (outcome big).map (Option.map WorkBuffer.Returned.wavefile) =
      testWavefile ((wave.bytes big).take size) ((wave.bytes big).drop size) pbrecCount := fun big => by
    have value := (@WorkBuffer.testWavefile_refines (system big) ((wave.bytes big).take size ++ room big)
      ((wave.bytes big).take size).length ⟨(wave.bytes big).drop size,calls big⟩ pbrecCount (by simp)).value
    rwa [List.take_left] at value
  rcases testWavefile_uniform wave size pbrecCount with exits | refused | ⟨hwparams,count,left,accepted⟩
  · have none_given : ∀ big, outcome big = none := fun big =>
      Option.map_eq_none_iff.mp ((erased big).trans (exits big))
    rw [none_given,none_given]
    exact .exited
  · have refusal : ∀ big, outcome big = some none := fun big => by
      obtain ⟨returned,given,nothing⟩ := Option.map_eq_some_iff.mp ((erased big).trans (refused big))
      rw [given,Option.map_eq_none_iff.mp nothing]
    rw [refusal,refusal]
    exact .refused
  · have returns : ∀ big, ∃ returned, outcome big = some (some returned) ∧ returned.result = left ∧
        returned.hwparams = hwparams.withOrder big ∧ returned.pbrecCount = count := fun big => by
      obtain ⟨leftover,file,length,found⟩ := accepted big
      obtain ⟨returned,given,same,result⟩ := @WorkBuffer.testWavefile_returns (system big) _
        ⟨(wave.bytes big).drop size,calls big⟩ _ _ found (room big)
      exact ⟨returned,given,result.trans length,congrArg Wavefile.hwparams same,congrArg Wavefile.pbrecCount same⟩
    obtain ⟨little,littleGiven,littleResult,littleParams,littleCount⟩ := returns false
    obtain ⟨big,bigGiven,bigResult,bigParams,bigCount⟩ := returns true
    rw [littleGiven,bigGiven]
    refine .accepted (littleResult.trans bigResult.symm) ?_ ?_ (littleCount.trans bigCount.symm)
      (congrArg Hwparams.format littleParams) (congrArg Hwparams.format bigParams)
    · rw [littleParams,bigParams]
      rfl
    · rw [littleParams,bigParams]
      rfl

/-- Samples of 16 bits in one channel. -/
def mono : FmtNumbers := ⟨1,1,8000,16000,2,16⟩

theorem mono_plain : FmtItems mono.items := by
  have other : mono.format ≠ 0xFFFE := by decide
  have plain := FmtItems.plain mono [] (Or.inl other)
  rwa [List.append_nil] at plain

theorem mono_padded : Riff.size mono.items = 16+16%2 := by
  decide

theorem mono_small : Riff.size mono.items < 2^32 := by
  decide

def chirpFormat : ItemChunk := ⟨Riff.fmtId,16,mono.items,rfl,mono_padded,mono_small,fun _ => mono_plain⟩

theorem data_unformatted : Riff.dataId ≠ Riff.fmtId := by
  decide

theorem chirp_padded : Riff.size [.raw [1,2,3,4]] = 4+4%2 := by
  decide

theorem chirp_small : Riff.size [.raw [1,2,3,4]] < 2^32 := by
  decide

def chirpData : ItemChunk :=
  ⟨Riff.dataId,4,[.raw [1,2,3,4]],rfl,chirp_padded,chirp_small,fun same => absurd same data_unformatted⟩

/-- Four bytes of sound, whole. -/
def chirp : Wave where
  riffLength := 40
  chunks := [chirpFormat,chirpData]
  cut := 48

/-- What a call makes of the chirp whose first 20 bytes are in the buffer, read byte by byte. -/
def chirped (big : Bool) : Option (Option WorkBuffer.Returned) :=
  (WorkBuffer.testWavefile WorkBuffer.bytewise ((chirp.bytes big).take 20 ++ []) ((chirp.bytes big).take 20).length
    ⟨(chirp.bytes big).drop 20,0⟩ 1000).run.value

theorem chirped_accepted (big : Bool) : ∃ returned, chirped big = some (some returned) ∧
    returned.hwparams = ⟨.s16 big,1,8000,by decide⟩ := by
  have found : testWavefile ((chirp.bytes big).take 20) ((chirp.bytes big).drop 20) 1000 =
      some (some ⟨[],[1,2,3,4],⟨.s16 big,1,8000,by decide⟩,4⟩) := by
    cases big <;> rfl
  obtain ⟨returned,given,same,_⟩ := @WorkBuffer.testWavefile_returns WorkBuffer.bytewise _
    ⟨(chirp.bytes big).drop 20,0⟩ _ _ found []
  exact ⟨returned,given,congrArg Wavefile.hwparams same⟩

theorem testWavefile_agrees_chirp : Agree (chirped false) (chirped true) ∧
    ∃ little big, chirped false = some (some little) ∧ chirped true = some (some big) ∧
      little.hwparams.format = .s16 false ∧ big.hwparams.format = .s16 true := by
  refine ⟨testWavefile_agrees chirp 20 1000 (fun _ => WorkBuffer.bytewise) (fun _ => []) (fun _ => 0),?_⟩
  obtain ⟨little,littleGiven,littleParams⟩ := chirped_accepted false
  obtain ⟨big,bigGiven,bigParams⟩ := chirped_accepted true
  exact ⟨little,big,littleGiven,bigGiven,by rw [littleParams],by rw [bigParams]⟩

end Libsme.Audio
