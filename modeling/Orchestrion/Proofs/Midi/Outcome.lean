import Orchestrion.Midi.Score
import Orchestrion.Proofs.Midi.Timing
import Orchestrion.Proofs.Score.Range

set_option autoImplicit false

/-!
# How the reading of notes ends

The notes of a file are read in two stages.  The first one brings its bytes into tracks, and
all that is wrong there but the data of events about a track is said of the file as a whole.
The second one plays the tracks together, and nothing that is wrong there is said of the
file: that its tracks are pieces of their own, that a beat has no ticks, that a time is out of
range.  Each of these has its cause in the bytes, and the first two are certain.
-/

namespace Orchestrion.Midi

open Binary64

variable {bs : Bytes} {file : File} {rate : Int}

/-! ## The header -/

theorem isBeat_fieldAt (bs : Bytes) (place : Nat) : IsBeat (fieldAt bs place) := by
  have hlimit : Nat.pow 256 2 = 65536 := rfl
  have hnumber : Bytes.ofBigEndian ((bs.drop place).take 2) < 65536 := by
    match bs.drop place with
    | [] => exact Nat.succ_pos _
    | [a] =>
      have := a.toNat_lt
      simp only [Bytes.ofBigEndian, List.take, List.foldl_cons, List.foldl_nil]
      omega
    | a :: b :: _ =>
      have := a.toNat_lt
      have := b.toNat_lt
      simp only [Bytes.ofBigEndian, List.take, List.foldl_cons, List.foldl_nil]
      omega
  rw [IsBeat, abs_le, fieldAt, Bytes.signed]
  split <;> omega

/-! ## A file that is read -/

theorem readNotes_of_separateTracks (hread : read bs = .ok file)
    (hformat : file.format = separateTracks) :
    readNotes (some bs) rate = .error .separateTracks := by
  simp only [readNotes, hread, File.messages, if_pos hformat]

theorem readNotes_of_read (hread : read bs = .ok file) (hformat : file.format ≠ separateTracks) :
    readNotes (some bs) rate = concluded
      (Score.notes (messagesFrom (α := Float) file.ticksPerBeat initialTempo file.played).1 rate)
      (messagesFrom (α := Float) file.ticksPerBeat initialTempo file.played).2 := by
  simp only [readNotes, hread, File.messages, if_neg hformat, File.played]

/-- A beat of a file that plays its tracks together has no ticks, although there are some. -/
def File.IsStuck (file : File) : Prop := file.ticksPerBeat = 0 ∧ 0 < file.ticks

theorem isStuck_iff : file.IsStuck ↔ file.ticksPerBeat = 0 ∧ ∃ e ∈ file.played, 0 < e.ticks := by
  refine and_congr_right fun _ => ⟨exists_mem_played, ?_⟩
  rintro ⟨e, he, hpos⟩
  exact hpos.trans_le (ticks_le_of_mem_played he)

theorem initialTempo_lt : initialTempo < Nat.pow 256 3 := by decide

theorem readNotes_cases (hfile : file.IsOf bs) (hread : read bs = .ok file)
    (hformat : file.format ≠ separateTracks) (hrate : 1 ≤ rate) :
    (∃ result, readNotes (some bs) rate = .ok result) ∨
      readNotes (some bs) rate = .error (.arithmetic .overflow) ∨
      readNotes (some bs) rate = .error (.arithmetic .divisionByZero) ∧ file.IsStuck := by
  have hbeat : IsBeat file.ticksPerBeat := hfile.ticksPerBeat ▸ isBeat_fieldAt bs 12
  obtain ⟨hvalues, hstop⟩ := messagesFrom_cases initialTempo_lt hbeat
    fun e he => isWritten_of_mem_played hfile.tracks he
  rw [readNotes_of_read hread hformat]
  rcases Score.notes_cases hrate hvalues with ⟨result, hresult⟩ | hover
  · rw [hresult]
    rcases hstop with hstop | hstop | ⟨hstop, hstuck⟩
    · rw [hstop]
      exact .inl ⟨result, rfl⟩
    · rw [hstop]
      exact .inr (.inl rfl)
    · rw [hstop]
      exact .inr (.inr ⟨rfl, isStuck_iff.mpr hstuck⟩)
  · rw [hover]
    exact .inr (.inl rfl)

/-! ## The range of times -/

/-- The exponent of a power of two up to which times can be added up and multiplied.  The
greatest power of two among the doubles has the exponent 1023; a tempo takes 24 of it and a
sum of times 54. -/
def rangeExponent : Nat := 944

/-- The time at which the longest track ends, in samples and as if a tick lasted a second, is
far from the greatest number. -/
def InRange (file : File) (rate : Int) : Prop := rate * (file.ticks + 1) < 2 ^ rangeExponent

theorem exists_powers {r n limit : Nat} (hr : 1 ≤ r) (h : r * (n + 1) < 2 ^ limit) :
    ∃ j k, n ≤ 2 ^ j ∧ r ≤ 2 ^ k ∧ j + k ≤ limit + 1 := by
  have hlow : 2 ^ (r.log2 + (n + 1).log2) < 2 ^ limit := by
    rw [Nat.pow_add]
    refine (Nat.mul_le_mul ?_ ?_).trans_lt h
    · exact Nat.log2_self_le (Nat.ne_of_gt hr)
    · exact Nat.log2_self_le n.succ_ne_zero
  have hexponent := (Nat.pow_lt_pow_iff_right one_lt_two).mp hlow
  refine ⟨(n + 1).log2 + 1, r.log2 + 1, ?_, Nat.lt_log2_self.le, by omega⟩
  exact (Nat.le_succ n).trans Nat.lt_log2_self.le

theorem inRange_natCast {r : Nat} :
    InRange file r ↔ r * (file.ticks + 1) < 2 ^ rangeExponent := by
  rw [InRange, ← Int.ofNat_lt, Nat.cast_pow, Nat.cast_mul, Nat.cast_succ]
  rfl

/-- In range, the notes are read unless the file is stuck. -/
theorem readNotes_in_range (hfile : file.IsOf bs) (hread : read bs = .ok file)
    (hformat : file.format ≠ separateTracks) (hrate : 1 ≤ rate) (hrange : InRange file rate) :
    file.IsStuck ∧ readNotes (some bs) rate = .error (.arithmetic .divisionByZero) ∨
      ¬file.IsStuck ∧ ∃ result, readNotes (some bs) rate = .ok result := by
  obtain ⟨r, rfl⟩ := Int.eq_ofNat_of_zero_le (zero_le_one.trans hrate)
  obtain ⟨j, k, hticks, hpow, hjk⟩ :=
    exists_powers (by exact_mod_cast hrate) (inRange_natCast.mp hrange)
  have hlimit : rangeExponent = 944 := rfl
  have hbeat : IsBeat file.ticksPerBeat := hfile.ticksPerBeat ▸ isBeat_fieldAt bs 12
  have hk : |(r : Int)| ≤ 2 ^ k := by
    rw [Int.abs_natCast]
    exact_mod_cast hpow
  obtain ⟨hwithin, hstop⟩ := messagesFrom_bounded (j := j) initialTempo_lt hbeat
    (fun e he => ⟨isWritten_of_mem_played hfile.tracks he,
      (ticks_le_of_mem_played he).trans hticks⟩) (by omega)
  obtain ⟨result, hresult⟩ := Score.exists_notes hk hwithin (by omega)
  rw [readNotes_of_read hread hformat, hresult, isStuck_iff]
  refine hstop.imp ?_ ?_
  · rintro ⟨hstuck, hstop⟩
    rw [hstop]
    exact ⟨hstuck, rfl⟩
  · rintro ⟨hfree, hstop⟩
    rw [hstop]
    exact ⟨hfree, result, rfl⟩

/-! ## All ends -/

/-- How a fault comes about that is not said of the file as a whole. -/
inductive Escapes (bs : Bytes) (rate : Int) : Fault → Prop where
  /-- an event about a track has too few data, or names a key that there is not -/
  | flaw {fault : Fault} (h : Blames bs fault) : Escapes bs rate fault
  /-- the tracks are pieces of their own -/
  | separateTracks (h : fieldAt bs 8 = separateTracks) : Escapes bs rate .separateTracks
  /-- a beat has no ticks, although there are some -/
  | stuck {file : File} (hread : read bs = .ok file) (hbeat : fieldAt bs 12 = 0)
      (hticks : 0 < file.ticks) : Escapes bs rate (.arithmetic .divisionByZero)
  /-- a time is out of range -/
  | outOfRange {file : File} (hread : read bs = .ok file) (hrange : ¬InRange file rate) :
      Escapes bs rate (.arithmetic .overflow)

/-- The reading of notes gives notes, or the report that the file cannot be read, or another
fault for a reason that stands in the bytes.  Of a file that is brought into tracks, the
second and the third reason are certain, and in range there is none besides them. -/
theorem readNotes_ends (content : Option Bytes) {rate : Int} (hrate : 1 ≤ rate) :
    ((∃ found warnings, readNotes content rate = .ok (found, warnings)) ∨
      readNotes content rate = .error .unreadable ∨
      ∃ bs fault, content = some bs ∧ readNotes content rate = .error fault ∧
        Escapes bs rate fault) ∧
    ∀ bs file, content = some bs → read bs = .ok file →
      (readNotes content rate = .error .separateTracks ↔ fieldAt bs 8 = separateTracks) ∧
      (fieldAt bs 8 ≠ separateTracks → InRange file rate →
        (readNotes content rate = .error (.arithmetic .divisionByZero) ↔
          fieldAt bs 12 = 0 ∧ 0 < file.ticks) ∧
        (¬(fieldAt bs 12 = 0 ∧ 0 < file.ticks) →
          ∃ found warnings, readNotes content rate = .ok (found, warnings))) := by
  constructor
  · cases content with
    | none => exact .inr (.inl rfl)
    | some bs =>
      have hyields := yields_read bs
      cases hread : read bs with
      | error fault =>
        have hfault : readNotes (some bs) rate = .error fault := by simp only [readNotes, hread]
        rw [hread] at hyields
        cases hyields with
        | unreadable => exact .inr (.inl hfault)
        | flaw h => exact .inr (.inr ⟨bs, fault, rfl, hfault, .flaw h⟩)
      | ok file =>
        rw [hread] at hyields
        have hfile := hyields.of_ok
        by_cases hformat : file.format = separateTracks
        · exact .inr (.inr ⟨bs, _, rfl, readNotes_of_separateTracks hread hformat,
            .separateTracks (hfile.format ▸ hformat)⟩)
        · by_cases hrange : InRange file rate
          · rcases readNotes_in_range hfile hread hformat hrate hrange with
              ⟨⟨hbeat, hticks⟩, hstuck⟩ | ⟨-, result, hresult⟩
            · exact .inr (.inr ⟨bs, _, rfl, hstuck,
                .stuck hread (hfile.ticksPerBeat ▸ hbeat) hticks⟩)
            · exact .inl ⟨_, _, hresult⟩
          · rcases readNotes_cases hfile hread hformat hrate with
              ⟨result, hresult⟩ | hover | ⟨hstuck, hbeat, hticks⟩
            · exact .inl ⟨_, _, hresult⟩
            · exact .inr (.inr ⟨bs, _, rfl, hover, .outOfRange hread hrange⟩)
            · exact .inr (.inr ⟨bs, _, rfl, hstuck,
                .stuck hread (hfile.ticksPerBeat ▸ hbeat) hticks⟩)
  · rintro bs file rfl hread
    have hfile : file.IsOf bs := by
      have hyields := yields_read bs
      rw [hread] at hyields
      exact hyields.of_ok
    rw [← hfile.format, ← hfile.ticksPerBeat]
    by_cases hformat : file.format = separateTracks
    · refine ⟨iff_of_true (readNotes_of_separateTracks hread hformat) hformat, ?_⟩
      exact fun hplayed => absurd hformat hplayed
    · constructor
      · refine iff_of_false (fun hseparate => ?_) hformat
        rcases readNotes_cases hfile hread hformat hrate with
          ⟨result, hresult⟩ | hover | ⟨hstuck, -⟩
        · rw [hresult] at hseparate
          cases hseparate
        · rw [hover] at hseparate
          cases hseparate
        · rw [hstuck] at hseparate
          cases hseparate
      · intro _ hrange
        rcases readNotes_in_range hfile hread hformat hrate hrange with
          ⟨hstuck, hresult⟩ | ⟨hfree, result, hresult⟩
        · exact ⟨iff_of_true hresult hstuck, fun hfree => absurd hstuck hfree⟩
        · refine ⟨iff_of_false (fun hdivision => ?_) hfree, fun _ => ⟨_, _, hresult⟩⟩
          rw [hresult] at hdivision
          cases hdivision

/-- A file of one track with one note, in some format and with some ticks in a beat. -/
def oneNote (format beat : UInt8) : Bytes :=
  Bytes.ofAscii "MThd" ++ [0, 0, 0, 6, 0, format, 0, 1, 0, beat] ++ Bytes.ofAscii "MTrk" ++
    [0, 0, 0, 12, 0, 0x90, 60, 100, 1, 0x80, 60, 0, 0, 0xff, 0x2f, 0]

/-- The track of that file. -/
def oneNoteTrack : Track :=
  [⟨0, .message (.noteOn 0 60 100)⟩, ⟨1, .message (.noteOff 0 60 0)⟩, ⟨0, .endOfTrack⟩]

theorem readNotes_ends_stuck :
    1 ≤ (44100 : Int) ∧ fieldAt (oneNote 1 0) 12 = 0 ∧
      readNotes (some (oneNote 1 0)) 44100 = .error (.arithmetic .divisionByZero) := by
  have hrate : 1 ≤ (44100 : Int) := by decide
  have hread : read (oneNote 1 0) = .ok ⟨1, 0, [oneNoteTrack]⟩ := rfl
  have hrange : InRange ⟨1, 0, [oneNoteTrack]⟩ 44100 :=
    inRange_natCast.mpr <| (show 44100 * 2 < 2 ^ 20 by decide).trans_le
      (Nat.pow_le_pow_right Nat.two_pos (by decide))
  obtain ⟨-, hends⟩ := readNotes_ends (some (oneNote 1 0)) hrate
  obtain ⟨-, hplayed⟩ := hends _ _ rfl hread
  have hformat : fieldAt (oneNote 1 0) 8 ≠ separateTracks := by decide
  exact ⟨hrate, rfl, (hplayed hformat hrange).1.mpr ⟨rfl, Nat.one_pos⟩⟩

/-- Not everything that keeps notes from being read is said of the file. -/
theorem readNotes_of_pieces :
    ¬∀ (content : Option Bytes) (rate : Int), 1 ≤ rate →
      (∃ found warnings, readNotes content rate = .ok (found, warnings)) ∨
        readNotes content rate = .error .unreadable := by
  intro h
  have hseparate : readNotes (some (oneNote 2 96)) 44100 = .error .separateTracks := rfl
  rcases h (some (oneNote 2 96)) 44100 (by decide) with ⟨found, warnings, hok⟩ | hunreadable
  · rw [hseparate] at hok
    cases hok
  · rw [hseparate] at hunreadable
    cases hunreadable

end Orchestrion.Midi
