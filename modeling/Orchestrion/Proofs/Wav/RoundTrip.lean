import Orchestrion.Proofs.Wav.Samples

set_option autoImplicit false

/-!
# Files that are read again

A file of samples is two chunks, the format and the samples, and nothing is left behind
the second one.  So the samples are found where they have been written, and each comes back
as its 32768th part.  There is one exception: a file whose first two samples are, byte by
byte, the beginning of another format is refused.  No two rows of samples have the same
file.
-/

namespace Orchestrion.Wav

/-! ## Fields and chunks -/

namespace Cursor

variable {file : Bytes} {place width : Nat}

theorem moveTo_of_le {place' : Nat} (h : place ≤ place') :
    moveTo ⟨place, place⟩ place' = ⟨place', place'⟩ := by
  rw [moveTo, Nat.max_eq_right h]

theorem skip_natCast (place bytes : Nat) :
    skip ⟨place, place⟩ bytes = ⟨place + bytes, place + bytes⟩ := by
  have hplace : ¬((place : Int) + bytes < 0) := by omega
  have hsum : ((place : Int) + bytes).toNat = place + bytes := by omega
  simp only [skip, if_neg hplace, hsum, moveTo_of_le (Nat.le_add_right _ _)]

theorem field_of_le (h : place + width ≤ file.length) :
    field file ⟨place, place⟩ width = bytesAt file place width :=
  if_pos (decide_eq_true h)

theorem behind_of_le (h : place + width ≤ file.length) :
    behind file ⟨place, place⟩ width = ⟨place + width, place + width⟩ := by
  have hfield : hasField file ⟨place, place⟩ width = true := decide_eq_true h
  rw [behind, if_pos hfield, moveTo_of_le (Nat.le_add_right _ _)]

end Cursor

namespace Source

variable (s : Source) (found : Contents)

/-- The name and the size of a chunk are read, and then its body is passed. -/
theorem contentsFrom_of_pass {before place size : Nat} {found' : Contents} {c : Cursor}
    (bound : Nat) (heven : before % 2 = 0) (hbefore : before < s.file.length)
    (hplace : place + 8 ≤ s.file.length)
    (hpass : s.pass found (Cursor.bytesAt s.file place 4)
      (s.order.number (Cursor.bytesAt s.file (place + 4) 4)) ⟨place + 8, place + 8⟩ =
        .next found' c size) :
    s.contentsFrom found before ⟨place, place⟩ (bound + 1) =
      s.contentsFrom found' size c bound := by
  have hgoes : ¬(s.file.length ≤ before ∨ s.file.length ≤ place + restSize) := by
    rw [restSize]
    omega
  have hname : Cursor.behind s.file ⟨place, place⟩ 4 = ⟨place + 4, place + 4⟩ :=
    Cursor.behind_of_le (by omega)
  have hsize : Cursor.behind s.file ⟨place + 4, place + 4⟩ 4 = ⟨place + 8, place + 8⟩ :=
    Cursor.behind_of_le (by omega)
  rw [contentsFrom]
  simp only [if_neg hgoes, heven, Cursor.skip_natCast, Nat.add_zero, hname, hsize, Cursor.number,
    Cursor.field_of_le (show place + 4 ≤ s.file.length by omega),
    Cursor.field_of_le (show place + 4 + 4 ≤ s.file.length by omega), hpass]

theorem pass_format (size : Nat) (c : Cursor) :
    s.pass found (Bytes.ofAscii "fmt ") size c = s.passFormat found size c := rfl

theorem pass_data (size : Nat) (c : Cursor) :
    s.pass found (Bytes.ofAscii "data") size c = s.passData found size c := rfl

/-- At the end of the file there are no more chunks. -/
theorem contentsFrom_of_length_le {c : Cursor} (before bound : Nat)
    (h : s.file.length ≤ c.reached) : s.contentsFrom found before c bound = some found := by
  cases bound with
  | zero => rfl
  | succ bound => rw [contentsFrom, if_pos (.inr (h.trans (Nat.le_add_right _ _)))]

end Source

/-! ## What is written -/

/-- Samples that a file can hold. -/
structure IsStorable (samples : List Int) : Prop where
  word : ∀ n ∈ samples, IsWord n
  /-- the sizes in the header have four bytes -/
  fits : headerRest + sampleSize * samples.length < 2 ^ 32

instance (samples : List Int) : Decidable (IsStorable samples) :=
  decidable_of_iff ((∀ n ∈ samples, IsWord n) ∧ headerRest + sampleSize * samples.length < 2 ^ 32)
    ⟨fun h => ⟨h.1, h.2⟩, fun h => ⟨h.word, h.fits⟩⟩

theorem IsStorable.size_lt {samples : List Int} (h : IsStorable samples) :
    36 + 2 * samples.length < 2 ^ 32 := h.fits

section

variable (rate : Nat) (samples : List Int)

theorem length_encode : (encode rate samples).length = 44 + 2 * samples.length := by
  have hheader : (header rate (sampleSize * samples.length)).length = 44 := rfl
  rw [encode, List.length_append, hheader, length_sampleBytes]

/-- The samples are behind the header. -/
theorem drop_encode : (encode rate samples).drop 44 = sampleBytes samples := rfl

/-- A file of samples as a row of chunks. -/
def written : Source := ⟨encode rate samples, .lowestFirst, 36 + 2 * samples.length⟩

/-- The format of the samples that are written. -/
def wordFormat : Format := ⟨.integer sampleSize, 1, rate⟩

variable {rate samples}

theorem encode_inj {rate' : Nat} {samples' : List Int} (h : ∀ n ∈ samples, IsWord n)
    (h' : ∀ n ∈ samples', IsWord n) (heq : encode rate samples = encode rate' samples') :
    samples = samples' := by
  refine sampleBytes_inj h h' ?_
  rw [← drop_encode rate, heq, drop_encode]

theorem ofFile?_encode (h : IsStorable samples) :
    Source.ofFile? (encode rate samples) = some (written rate samples) := by
  have hsize := h.size_lt
  have hfield : ((encode rate samples).drop 4).take 4 =
      Bytes.littleEndian 4 (36 + 2 * samples.length) := rfl
  have hlength : (encode rate samples).length - 8 = 36 + 2 * samples.length := by
    rw [length_encode]
    omega
  have hsource : Source.ofFile? (encode rate samples) = some ⟨encode rate samples, .lowestFirst,
      min (ByteOrder.number .lowestFirst (((encode rate samples).drop 4).take 4))
        ((encode rate samples).length - 8)⟩ := rfl
  rw [hsource, hfield, ByteOrder.number_littleEndian (by omega), hlength, min_self, written]

theorem ofChunk?_formatFields (hrate : rate < 2 ^ 31) :
    Format.ofChunk? .lowestFirst (formatFields rate) = some (wordFormat rate) := by
  have hlength : ¬(formatFields rate).length < Format.minSize := Nat.lt_irrefl 16
  have hcode : Format.code? .lowestFirst (formatFields rate) = some 1 := rfl
  have hbits : ByteOrder.number .lowestFirst (((formatFields rate).drop 14).take 2) = 16 := rfl
  have hchannels : ByteOrder.number .lowestFirst (((formatFields rate).drop 2).take 2) = 1 := rfl
  have hencoding : Encoding.of? 1 16 = some (.integer sampleSize) := rfl
  have hsigned : Bytes.signed 4 (ByteOrder.number .lowestFirst
      (((formatFields rate).drop 4).take 4)) = rate := by
    have hfield : ((formatFields rate).drop 4).take 4 = Bytes.littleEndian 4 rate := rfl
    have hrange : 2 * rate < Nat.pow 256 4 := by
      show 2 * rate < 2 ^ 32
      omega
    rw [hfield, ByteOrder.number_littleEndian (by omega), Bytes.signed, if_pos hrange]
  simp only [Format.ofChunk?, if_neg hlength, hcode, hbits, hchannels, hencoding, hsigned,
    Option.map_some, wordFormat]

/-- The first chunk tells the format. -/
theorem pass_written_format (hrate : rate < 2 ^ 31) :
    (written rate samples).pass ⟨none, none⟩ (Cursor.bytesAt (written rate samples).file 12 4)
      (ByteOrder.number .lowestFirst (Cursor.bytesAt (written rate samples).file 16 4)) ⟨20, 20⟩ =
    .next ⟨some (wordFormat rate), none⟩ ⟨36, 36⟩ 16 := by
  have hname : Cursor.bytesAt (written rate samples).file 12 4 = Bytes.ofAscii "fmt " := rfl
  have hfield : Cursor.bytesAt (written rate samples).file 16 4 = Bytes.littleEndian 4 16 := rfl
  have hbody : ((written rate samples).file.drop 20).take 16 = formatFields rate := rfl
  have horder : (written rate samples).order = .lowestFirst := rfl
  rw [hname, hfield, ByteOrder.number_littleEndian (by norm_num), Source.pass_format,
    Source.passFormat]
  simp only [hbody, horder, ofChunk?_formatFields hrate]
  rfl

/-- The second chunk holds the samples, up to the end of the file. -/
theorem pass_written_data (f : Format) (h : IsStorable samples) :
    (written rate samples).pass ⟨some f, none⟩ (Cursor.bytesAt (written rate samples).file 36 4)
      (ByteOrder.number .lowestFirst (Cursor.bytesAt (written rate samples).file 40 4)) ⟨44, 44⟩ =
    .next ⟨some f, some ⟨44, none⟩⟩
      ⟨44 + 2 * samples.length, 44 + 2 * samples.length⟩ 0 := by
  have hsize := h.size_lt
  have hlength : (written rate samples).file.length = 44 + 2 * samples.length :=
    length_encode rate samples
  have hname : Cursor.bytesAt (written rate samples).file 36 4 = Bytes.ofAscii "data" := rfl
  have hfield : Cursor.bytesAt (written rate samples).file 40 4 =
      Bytes.littleEndian 4 (2 * samples.length) := rfl
  have hsamples : (written rate samples).samplesSize 44 (2 * samples.length) =
      2 * samples.length := by
    have hfinished : (written rate samples).size ≠ Source.unfinishedSize := by
      show 36 + 2 * samples.length ≠ 8
      omega
    rw [Source.samplesSize, if_neg fun hzero => hfinished hzero.2.1, hlength]
    omega
  have hend : ¬44 + 2 * samples.length < (written rate samples).file.length := by omega
  have hpadding : (44 + 2 * samples.length - 44) % 2 = 0 := by omega
  rw [hname, hfield, ByteOrder.number_littleEndian (by omega), Source.pass_data, Source.passData]
  simp only [hsamples, if_neg hend, hpadding, Nat.add_zero]
  rw [Cursor.moveTo_of_le (Nat.le_add_right _ _)]
  rfl

theorem contents_written (hrate : rate < 2 ^ 31) (h : IsStorable samples) :
    (written rate samples).contents = some ⟨some (wordFormat rate), some ⟨44, none⟩⟩ := by
  have hlength : (written rate samples).file.length = 44 + 2 * samples.length :=
    length_encode rate samples
  obtain ⟨bound, hbound⟩ : ∃ bound, (written rate samples).file.length = bound + 1 + 1 :=
    ⟨42 + 2 * samples.length, by omega⟩
  rw [Source.contents, hbound]
  calc (written rate samples).contentsFrom ⟨none, none⟩ 0 ⟨12, 12⟩ (bound + 1 + 1)
      = (written rate samples).contentsFrom ⟨some (wordFormat rate), none⟩ 16 ⟨36, 36⟩
          (bound + 1) :=
        Source.contentsFrom_of_pass _ _ _ rfl (by omega) (by omega) (pass_written_format hrate)
    _ = (written rate samples).contentsFrom ⟨some (wordFormat rate), some ⟨44, none⟩⟩ 0
          ⟨44 + 2 * samples.length, 44 + 2 * samples.length⟩ bound :=
        Source.contentsFrom_of_pass _ _ _ rfl (by omega) (by omega) (pass_written_data _ h)
    _ = some ⟨some (wordFormat rate), some ⟨44, none⟩⟩ :=
        Source.contentsFrom_of_length_le _ _ _ _ hlength.le

/-! ## What is read -/

/-- Samples whose bytes begin as those of another format within a wave file. -/
def IsForeign (samples : List Int) : Prop :=
  samples.take 2 = [30327, 27504] ∨ samples.take 2 = [26447, 21351]

instance (samples : List Int) : Decidable (IsForeign samples) :=
  inferInstanceAs (Decidable (_ ∨ _))

theorem contains_take_iff (h : ∀ n ∈ samples, IsWord n) :
    foreignBeginnings.contains ((sampleBytes samples).take 4) = true ↔ IsForeign samples := by
  have hbeginnings : foreignBeginnings =
      [sampleBytes [30327, 27504], sampleBytes [26447, 21351]] := rfl
  have htake : ∀ n ∈ samples.take 2, IsWord n := fun n hn => h n (List.mem_of_mem_take hn)
  have hequal {words : List Int} (hwords : ∀ n ∈ words, IsWord n) :
      sampleBytes (samples.take 2) = sampleBytes words ↔ samples.take 2 = words :=
    ⟨sampleBytes_inj htake hwords, congrArg sampleBytes⟩
  rw [hbeginnings, take_sampleBytes 2, List.contains_iff_mem, List.mem_pair,
    hequal (by decide), hequal (by decide), IsForeign]

theorem parts?_encode (hrate : 1 ≤ rate ∧ rate < 2 ^ 31) (h : IsStorable samples) :
    parts? (encode rate samples) =
      if IsForeign samples then none
      else some (wordFormat rate, .lowestFirst, sampleBytes samples) := by
  have hvalid : (wordFormat rate).isValid = true := by
    have hrate' : (1 : Int) ≤ rate := by omega
    simp [Format.isValid, wordFormat, Format.maxChannels, hrate']
  have htake : (sampleBytes samples).take ((encode rate samples).length - 44) =
      sampleBytes samples := by
    rw [length_encode, List.take_of_length_le]
    rw [length_sampleBytes]
    omega
  have horder : (written rate samples).order = .lowestFirst := rfl
  rw [parts?, ofFile?_encode h]
  simp only [contents_written hrate.2 h, horder, hvalid, drop_encode, htake, ByteOrder.arrange,
    Option.getD_none, min_self, Option.any_none, Bool.and_false, Bool.not_true, Bool.false_or,
    contains_take_iff h.word]

/-- What a file is read as. -/
theorem decode_encode (hrate : 1 ≤ rate ∧ rate < 2 ^ 31) (h : IsStorable samples) :
    decode (encode rate samples) =
      if IsForeign samples then none else some (samples.map clipValue).toArray := by
  rw [decode, parts?_encode hrate h]
  by_cases hforeign : IsForeign samples
  · simp only [if_pos hforeign]
  · have hchannels : (wordFormat rate).channels = 1 := rfl
    have hencoding : (wordFormat rate).encoding = .integer sampleSize := rfl
    have hinstants : 2 * samples.length / (1 * (Encoding.integer sampleSize).width) =
        samples.length := Nat.mul_div_cancel_left _ two_pos
    simp only [if_neg hforeign, hchannels, hencoding, length_sampleBytes, hinstants, mul_one,
      samplesFrom_sampleBytes [] h.word, List.reverse_nil, List.nil_append, if_true]

theorem eq_of_decode_encode {clip : Clip Float} (hrate : 1 ≤ rate ∧ rate < 2 ^ 31)
    (h : IsStorable samples) (hclip : decode (encode rate samples) = some clip) :
    clip = (samples.map clipValue).toArray := by
  rw [decode_encode hrate h] at hclip
  split at hclip
  · cases hclip
  · exact (Option.some.inj hclip).symm

end

/-! ## Files by name -/

theorem fileOf_eq_ok_iff {path : String} {rate : Int} {samples : List Int} {file : Bytes} :
    fileOf path rate samples = .ok file ↔ isWaveName path = true ∧
      (1 ≤ rate ∧ rate < 2 ^ 31) ∧ file = encode rate.toNat samples := by
  rw [fileOf]
  split_ifs with hname hlarge hsmall
  · exact iff_of_false nofun fun h => by simp [h.1] at hname
  · exact iff_of_false nofun fun h => by omega
  · exact iff_of_false nofun fun h => by omega
  · have hname' : isWaveName path = true := by simpa using hname
    rw [Except.ok.injEq, eq_comm]
    exact ⟨fun h => ⟨hname', by omega, h⟩, fun h => h.2.2⟩

/-- What a file keeps of its samples. -/
structure IsKept (samples : List Int) (file : Bytes) : Prop where
  /-- samples that begin as another format does are refused -/
  foreign : IsForeign samples → decode file = none
  /-- any others are a clip of as many numbers of single precision -/
  clip : ¬IsForeign samples → ∃ clip, decode file = some clip ∧ clip.size = samples.length ∧
    ∀ (i : Nat) (n : Int), samples[i]? = some n → ∃ x, clip[i]? = some x ∧
      Scalar.single x = x ∧ Binary64.value (Binary64.ofFloat x) = some ↑((n : ℝ) / 32768)
  /-- no other samples are written as this file -/
  injective (path : String) (rate : Int) (samples' : List Int) : (∀ n ∈ samples', IsWord n) →
    fileOf path rate samples' = .ok file → samples' = samples
  /-- no other samples are read as this clip -/
  separated (path : String) (rate : Int) (samples' : List Int) (file' : Bytes)
    (clip : Clip Float) : IsStorable samples' → fileOf path rate samples' = .ok file' →
    decode file = some clip → decode file' = some clip → samples' = samples

/-- Samples of 16 bits are written to the file of a name, and kept there. -/
theorem exists_fileOf_isKept {path : String} {rate : Int} {samples : List Int}
    (hpath : isWaveName path = true) (hrate : 1 ≤ rate ∧ rate < 2 ^ 31)
    (h : IsStorable samples) :
    ∃ file, fileOf path rate samples = .ok file ∧ IsKept samples file := by
  have hdecode : decode (encode rate.toNat samples) =
      if IsForeign samples then none else some (samples.map clipValue).toArray :=
    decode_encode (by omega) h
  refine ⟨encode rate.toNat samples, fileOf_eq_ok_iff.mpr ⟨hpath, hrate, rfl⟩, ?_⟩
  constructor
  case foreign => exact fun hforeign => by rw [hdecode, if_pos hforeign]
  case clip =>
    intro hforeign
    rw [if_neg hforeign] at hdecode
    refine ⟨_, hdecode, ?_, fun i n hn => ⟨clipValue n, ?_, ?_, ?_⟩⟩
    · rw [List.size_toArray, List.length_map]
    · rw [List.getElem?_toArray, List.getElem?_map, hn, Option.map_some]
    · exact single_clipValue (h.word n (List.mem_of_getElem? hn))
    · exact value_clipValue (h.word n (List.mem_of_getElem? hn))
  case injective =>
    intro path' rate' samples' hwords hfile
    obtain ⟨-, -, heq⟩ := fileOf_eq_ok_iff.mp hfile
    exact (encode_inj h.word hwords heq).symm
  case separated =>
    intro path' rate' samples' file' clip h' hfile hread hread'
    obtain ⟨-, hrate', rfl⟩ := fileOf_eq_ok_iff.mp hfile
    have hclip := eq_of_decode_encode (by omega) h hread
    have hclip' := eq_of_decode_encode (by omega) h' hread'
    exact map_clipValue_inj h'.word h.word (List.toArray_inj (hclip'.symm.trans hclip))

/-- The least and the greatest sample are kept. -/
theorem exists_fileOf_isKept_ends :
    (isWaveName "a.wav" = true ∧ IsStorable [0, -32768, 32767]) ∧
      ∃ file, fileOf "a.wav" 44100 [0, -32768, 32767] = .ok file ∧
        IsKept [0, -32768, 32767] file := by
  have hstorable : IsStorable [0, -32768, 32767] := by decide
  exact ⟨⟨rfl, hstorable⟩, exists_fileOf_isKept rfl (by decide) hstorable⟩

/-- Two samples whose bytes are the beginning of another format are not read again. -/
theorem decode_fileOf_foreign :
    (isWaveName "a.wav" = true ∧ IsStorable [26447, 21351]) ∧
      ∃ file, fileOf "a.wav" 44100 [26447, 21351] = .ok file ∧ ¬∃ clip, decode file = some clip := by
  have hnone : decode (encode 44100 [26447, 21351]) = none := rfl
  refine ⟨⟨rfl, by decide⟩, encode 44100 [26447, 21351], rfl, ?_⟩
  rintro ⟨clip, hclip⟩
  rw [hnone] at hclip
  cases hclip

end Orchestrion.Wav
