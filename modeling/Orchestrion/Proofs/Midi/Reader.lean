import Orchestrion.Midi.Reader

set_option autoImplicit false

/-!
# Where the reading of a file stops

What is read of a file is a part of its bytes, one step after the other.  Nearly every
step that cannot be taken says that the file is not written as it has to be.  The
exceptions are events about the track whose data are too few, or name a key that there is
not: each of them stands in the file, with its status, its kind and its length.
-/

namespace Orchestrion.Midi

/-! ## Events about the track that are written wrongly -/

/-- Whether a tempo has three bytes, as it is written. -/
def Event.IsWritten (event : Event) : Prop := ∀ beat, event = .tempo beat → beat < Nat.pow 256 3

theorem isWritten_message (m : Message) : (Event.message m).IsWritten := nofun

namespace Meta

/-- The bytes of data that an event of a kind needs. -/
def needed? : Nat → Option Nat
  | 0x00 => some 2
  | 0x20 => some 1
  | 0x51 => some 3
  | 0x54 => some 5
  | 0x58 => some 4
  | 0x59 => some 2
  | _ => none

/-- Whether a key has no more sharps or flats than there are, and is major or minor. -/
def IsKey (sharps mode : UInt8) : Prop :=
  (Bytes.signed 1 sharps.toNat).natAbs ≤ maxAccidentals ∧ mode.toNat ≤ 1

/-- What is wrong with an event of some kind and data. -/
inductive Flaw : Nat → Bytes → Fault → Prop where
  /-- the data are too few -/
  | short {kind n : Nat} {data : Bytes} (hkind : needed? kind = some n) (h : data.length < n) :
      Flaw kind data .shortEvent
  /-- the key is none -/
  | key {sharps mode : UInt8} {rest : Bytes} (h : ¬IsKey sharps mode) :
      Flaw 0x59 (sharps :: mode :: rest) .unknownKey

/-- What the data of a kind lead to: an event, or a fault that is a flaw of theirs unless it
is said of the file. -/
def Sound (kind : Nat) (data : Bytes) : Except Fault Event → Prop
  | .ok event => event.IsWritten
  | .error fault => fault = .unreadable ∨ Flaw kind data fault

variable {kind : Nat} {data : Bytes}

theorem sound_silent : Sound kind data (.ok silent) := isWritten_message .other

theorem sound_short {n : Nat} (hkind : needed? kind = some n) (h : data.length < n) :
    Sound kind data (.error .shortEvent) := .inr (.short hkind h)

theorem sound_sequenceNumber : Sound 0x00 data (sequenceNumber data) := by
  unfold sequenceNumber
  split
  · exact sound_short rfl Nat.one_lt_two
  · exact sound_silent

theorem sound_channel : Sound 0x20 data (channel data) := by
  unfold channel
  split
  · exact sound_short rfl Nat.one_pos
  · exact sound_silent

theorem sound_tempo : Sound 0x51 data (tempo data) := by
  unfold tempo
  split
  case h_1 a b c rest =>
    rintro beat ⟨⟩
    have hlimit : Nat.pow 256 3 = 16777216 := rfl
    have := a.toNat_lt
    have := b.toNat_lt
    have := c.toNat_lt
    simp only [Bytes.ofBigEndian, List.foldl_cons, List.foldl_nil]
    omega
  case h_2 hshort =>
    refine sound_short rfl ?_
    match data, hshort with
    | [], _ => exact Nat.zero_lt_succ 2
    | [_], _ => exact Nat.succ_lt_succ (Nat.zero_lt_succ 1)
    | [_, _], _ => exact Nat.lt_succ_self 2
    | a :: b :: c :: rest, h => exact absurd rfl (h a b c rest)

/-- A byte of a time of day that is not there is one of five. -/
theorem sound_checked {index limit : Nat} {next : Except Fault Event} (hindex : index < 5)
    (h : Sound 0x54 data next) :
    Sound 0x54 data (checked data index limit >>= fun _ => next) := by
  unfold checked
  cases hbyte : data[index]? with
  | none =>
    have hlength := List.getElem?_eq_none_iff.mp hbyte
    exact sound_short rfl (Nat.lt_of_le_of_lt hlength hindex)
  | some b =>
    by_cases hle : b.toNat ≤ limit
    · simp only [if_pos hle]
      exact h
    · simp only [if_neg hle]
      exact .inl rfl

theorem sound_timeOfDay : Sound 0x54 data (timeOfDay data) :=
  sound_checked (by decide) <| sound_checked (by decide) <| sound_checked (by decide) <|
    sound_checked (by decide) <| sound_checked (by decide) sound_silent

theorem sound_timeSignature : Sound 0x58 data (timeSignature data) := by
  unfold timeSignature
  split
  case h_1 beats power rest =>
    split
    · split
      case isTrue h =>
        refine sound_short rfl ?_
        simp only [List.length_cons]
        omega
      case isFalse => exact sound_silent
    · exact .inl rfl
  case h_2 hshort =>
    refine sound_short rfl ?_
    match data, hshort with
    | [], _ => exact Nat.zero_lt_succ 3
    | [_], _ => exact Nat.succ_lt_succ (Nat.zero_lt_succ 2)
    | a :: b :: rest, h => exact absurd rfl (h a b rest)

theorem sound_keySignature : Sound 0x59 data (keySignature data) := by
  unfold keySignature
  split
  case h_1 sharps mode rest =>
    split
    case isTrue => exact sound_silent
    case isFalse h => exact .inr (.key h)
  case h_2 hshort =>
    refine sound_short rfl ?_
    match data, hshort with
    | [], _ => exact Nat.zero_lt_succ 1
    | [_], _ => exact Nat.lt_succ_self 1
    | a :: b :: rest, h => exact absurd rfl (h a b rest)

theorem sound_event? {result : Except Fault Event} (h : event? kind data = some result) :
    Sound kind data result := by
  unfold event? at h
  split at h <;> cases h
  case h_1 => exact sound_sequenceNumber
  case h_2 => exact sound_channel
  case h_3 => exact nofun
  case h_4 => exact sound_tempo
  case h_5 => exact sound_timeOfDay
  case h_6 => exact sound_timeSignature
  case h_7 => exact sound_keySignature
  all_goals exact sound_silent

end Meta

/-! ## Numbers of variable length -/

/-- How a number is written with a variable length, after some of its digits: seven binary
digits in each byte, and the eighth is set in all but the last. -/
inductive Spells : Nat → Bytes → Nat → Prop where
  | last {value : Nat} {b : UInt8} (h : b.toNat < 128) : Spells value [b] (128 * value + b.toNat)
  | more {value n : Nat} {b : UInt8} {rest : Bytes} (h : 128 ≤ b.toNat)
      (hrest : Spells (128 * value + b.toNat % 128) rest n) : Spells value (b :: rest) n

/-! ## What reading yields -/

/-- An event about the track that is written wrongly stands somewhere in the bytes. -/
def Blames (bs : Bytes) (fault : Fault) : Prop :=
  ∃ (kind : UInt8) (size data : Bytes), Meta.Flaw kind.toNat data fault ∧
    Spells 0 size data.length ∧ UInt8.ofNat metaStatus :: kind :: (size ++ data) <:+: bs

theorem Blames.mono {bs bs' : Bytes} {fault : Fault} (h : Blames bs fault) (hbs : bs <:+: bs') :
    Blames bs' fault := by
  obtain ⟨kind, size, data, hflaw, hsize, hinfix⟩ := h
  exact ⟨kind, size, data, hflaw, hsize, hinfix.trans hbs⟩

/-- How the reading of some bytes ends. -/
inductive Yields {β : Type} (P : β → Prop) (bs : Bytes) : Except Fault β → Prop where
  | ok {x : β} (h : P x) : Yields P bs (.ok x)
  | unreadable : Yields P bs (.error .unreadable)
  | flaw {fault : Fault} (h : Blames bs fault) : Yields P bs (.error fault)

namespace Yields

variable {β γ : Type} {P : β → Prop} {Q : γ → Prop} {bs bs' : Bytes}

theorem bind {r : Except Fault β} {f : β → Except Fault γ} (h : Yields P bs r)
    (hf : ∀ x, P x → Yields Q bs (f x)) : Yields Q bs (r >>= f) := by
  cases h with
  | ok hx => exact hf _ hx
  | unreadable => exact .unreadable
  | flaw h => exact .flaw h

theorem widen {r : Except Fault β} (h : Yields P bs r) (hbs : bs <:+: bs') : Yields P bs' r := by
  cases h with
  | ok hx => exact .ok hx
  | unreadable => exact .unreadable
  | flaw h => exact .flaw (h.mono hbs)

theorem imp {P' : β → Prop} {r : Except Fault β} (h : Yields P bs r) (hP : ∀ x, P x → P' x) :
    Yields P' bs r := by
  cases h with
  | ok hx => exact .ok (hP _ hx)
  | unreadable => exact .unreadable
  | flaw h => exact .flaw h

theorem of_ok {x : β} (h : Yields P bs (.ok x)) : P x := by
  cases h with
  | ok h => exact h

end Yields

/-! ## Steps -/

variable {bs : Bytes}

namespace Cursor

theorem yields_byte (c : Cursor) :
    Yields (fun (b, c') => c.rest = b :: c'.rest) bs c.byte := by
  unfold byte
  split
  · exact .unreadable
  · rename_i hrest
    exact .ok hrest

theorem yields_bytesFrom (found : Bytes) (position n : Nat) (rest : Bytes) :
    Yields (fun (data, c') => ∃ more, data = found.reverse ++ more ∧ more.length = n ∧
      rest = more ++ c'.rest) bs (bytesFrom found position n rest) := by
  induction n generalizing found position rest with
  | zero =>
    rw [bytesFrom]
    exact .ok ⟨[], (List.append_nil _).symm, rfl, rfl⟩
  | succ n ih =>
    cases rest with
    | nil => exact .unreadable
    | cons b rest =>
      refine (ih (b :: found) (position + 1) rest).imp ?_
      rintro ⟨data, c'⟩ ⟨more, hdata, hlength, hrest⟩
      refine ⟨b :: more, ?_, congrArg (· + 1) hlength, congrArg (b :: ·) hrest⟩
      rw [hdata, List.reverse_cons, List.append_assoc, List.singleton_append]

theorem yields_bytes (c : Cursor) (n : Nat) :
    Yields (fun (data, c') => data.length = n ∧ c.rest = data ++ c'.rest) bs (c.bytes n) := by
  refine (yields_bytesFrom [] c.position n c.rest).imp ?_
  rintro ⟨data, c'⟩ ⟨more, rfl, hlength, hrest⟩
  exact ⟨hlength, hrest⟩

theorem yields_quantityFrom (value position : Nat) (rest : Bytes) :
    Yields (fun (n, c') => ∃ digits, Spells value digits n ∧ rest = digits ++ c'.rest) bs
      (quantityFrom value position rest) := by
  induction rest generalizing value position with
  | nil => exact .unreadable
  | cons b rest ih =>
    by_cases hb : b.toNat < 128
    · simp only [quantityFrom, if_pos hb]
      refine .ok ⟨[b], ?_, rfl⟩
      rw [Nat.mod_eq_of_lt hb]
      exact .last hb
    · simp only [quantityFrom, if_neg hb]
      refine (ih (128 * value + b.toNat % 128) (position + 1)).imp ?_
      rintro ⟨n, c'⟩ ⟨digits, hdigits, hrest⟩
      exact ⟨b :: digits, .more (Nat.le_of_not_lt hb) hdigits, congrArg (b :: ·) hrest⟩

theorem yields_quantity (c : Cursor) :
    Yields (fun (n, c') => ∃ digits, Spells 0 digits n ∧ c.rest = digits ++ c'.rest) bs
      c.quantity :=
  yields_quantityFrom 0 c.position c.rest

theorem yields_chunkHeader (c : Cursor) :
    Yields (fun (name, _, c') => ∃ size : Bytes, name.length = 4 ∧ size.length = 4 ∧
      c.rest = name ++ size ++ c'.rest) bs c.chunkHeader := by
  refine (yields_bytes c 4).bind ?_
  rintro ⟨name, c₁⟩ ⟨hname, hrest⟩
  refine (yields_bytes c₁ 4).bind ?_
  rintro ⟨size, c₂⟩ ⟨hsize, hrest₁⟩
  refine .ok ⟨size, hname, hsize, ?_⟩
  rw [hrest, hrest₁, List.append_assoc]

end Cursor

/-! ## Events -/

theorem yields_longData (c : Cursor) :
    Yields (fun (data, c') => ∃ size, Spells 0 size data.length ∧
      c.rest = size ++ data ++ c'.rest) bs (longData c) := by
  refine (Cursor.yields_quantity c).bind ?_
  rintro ⟨length, c₁⟩ ⟨size, hsize, hrest⟩
  dsimp only
  split
  · exact .unreadable
  · refine (Cursor.yields_bytes c₁ length).imp ?_
    rintro ⟨data, c'⟩ ⟨rfl, hrest₁⟩
    exact ⟨size, hsize, by rw [hrest, hrest₁, List.append_assoc]⟩

theorem yields_exclusive (c : Cursor) :
    Yields (fun (event, c') => event.IsWritten ∧ c'.rest <:+ c.rest) bs (exclusive c) := by
  refine (yields_longData c).bind ?_
  rintro ⟨data, c'⟩ ⟨size, -, hrest⟩
  dsimp only
  split
  · refine .ok ⟨isWritten_message _, ?_⟩
    rw [hrest]
    exact List.suffix_append ..
  · exact .unreadable

theorem yields_message (status : Nat) (data : Bytes) (c : Cursor) :
    Yields (fun (event, c') => event.IsWritten ∧ c'.rest <:+ c.rest) bs
      (message status data c) := by
  unfold message
  split
  · exact .unreadable
  · split
    · exact .unreadable
    · refine (Cursor.yields_bytes c _).bind ?_
      rintro ⟨more, c'⟩ ⟨-, hrest⟩
      dsimp only
      split
      · refine .ok ⟨isWritten_message _, ?_⟩
        rw [hrest]
        exact List.suffix_append ..
      · exact .unreadable

/-- An event about the track is to blame for its own flaws only. -/
theorem yields_metaEvent (ticks : Nat) (c : Cursor) :
    Yields (fun (e, c') => e.event.IsWritten ∧ c'.rest <:+ c.rest)
      (UInt8.ofNat metaStatus :: c.rest) (metaEvent ticks c) := by
  refine (Cursor.yields_byte c).bind ?_
  rintro ⟨kind, c₁⟩ hkind
  refine (yields_longData c₁).bind ?_
  rintro ⟨data, c'⟩ ⟨size, hsize, hrest⟩
  have hsuffix : c'.rest <:+ c.rest := by
    rw [hkind, hrest]
    exact (List.suffix_append ..).trans (List.suffix_cons ..)
  have hinfix : UInt8.ofNat metaStatus :: kind :: (size ++ data) <:+:
      UInt8.ofNat metaStatus :: c.rest := by
    rw [hkind, hrest]
    exact (List.prefix_append (_ :: kind :: (size ++ data)) c'.rest).isInfix
  dsimp only
  split
  case h_1 => exact .ok ⟨isWritten_message _, hsuffix⟩
  case h_2 event hevent => exact .ok ⟨Meta.sound_event? hevent, hsuffix⟩
  case h_3 fault hevent =>
    rcases Meta.sound_event? hevent with rfl | hflaw
    · exact .unreadable
    · exact .flaw ⟨kind, size, data, hflaw, hsize, hinfix⟩

theorem yields_event (running : Option Nat) (c : Cursor) :
    Yields (fun (e, _, c') => e.event.IsWritten ∧ c'.rest <:+ c.rest) c.rest
      (event running c) := by
  refine (Cursor.yields_quantity c).bind ?_
  rintro ⟨ticks, c₁⟩ ⟨digits, -, hrest⟩
  refine (Cursor.yields_byte c₁).bind ?_
  rintro ⟨first, c₂⟩ hfirst
  have hsuffix : first :: c₂.rest <:+ c.rest := by
    rw [hrest, hfirst]
    exact List.suffix_append ..
  have hsuffix₂ : c₂.rest <:+ c.rest := (List.suffix_cons ..).trans hsuffix
  dsimp only
  split
  case isTrue hmeta =>
    have hstatus : UInt8.ofNat metaStatus = first := by rw [← hmeta, UInt8.ofNat_toNat]
    rw [← hstatus] at hsuffix
    refine ((yields_metaEvent ticks c₂).widen hsuffix.isInfix).bind ?_
    rintro ⟨e, c'⟩ ⟨hwritten, hc'⟩
    exact .ok ⟨hwritten, hc'.trans hsuffix₂⟩
  case isFalse =>
    split
    · exact .unreadable
    · rename_i status _
      split
      · refine (yields_exclusive c₂).bind ?_
        rintro ⟨event, c'⟩ ⟨hwritten, hc'⟩
        exact .ok ⟨hwritten, hc'.trans hsuffix₂⟩
      · refine (yields_message status _ c₂).bind ?_
        rintro ⟨event, c'⟩ ⟨hwritten, hc'⟩
        exact .ok ⟨hwritten, hc'.trans hsuffix₂⟩

/-! ## Tracks -/

/-- Whether all tempos of a track have three bytes. -/
def Track.IsWritten (t : Track) : Prop := ∀ e ∈ t, e.event.IsWritten

theorem eventsUpTo_succ (position : Nat) (running : Option Nat) (found : Track) (bound : Nat)
    (c : Cursor) : eventsUpTo position running found (bound + 1) c =
      if c.position = position then .ok (found.reverse, c)
      else event running c >>= fun (e, running, c) =>
        eventsUpTo position running (e :: found) bound c := by
  rw [eventsUpTo]
  split
  · rfl
  · cases event running c <;> rfl

theorem yields_eventsUpTo (position : Nat) (running : Option Nat) (found : Track) (bound : Nat)
    (c : Cursor) (hfound : Track.IsWritten found) :
    Yields (fun (t, c') => Track.IsWritten t ∧ c'.rest <:+ c.rest) c.rest
      (eventsUpTo position running found bound c) := by
  have hend : Track.IsWritten found.reverse := fun e he => hfound e (List.mem_reverse.mp he)
  induction bound generalizing running found c with
  | zero =>
    unfold eventsUpTo
    split
    · exact .ok ⟨hend, List.suffix_rfl⟩
    · exact .unreadable
  | succ bound ih =>
    rw [eventsUpTo_succ]
    split
    · exact .ok ⟨hend, List.suffix_rfl⟩
    · refine (yields_event running c).bind ?_
      rintro ⟨e, running, c₁⟩ ⟨hwritten, hc₁⟩
      have hmore : Track.IsWritten (e :: found) := List.forall_mem_cons.mpr ⟨hwritten, hfound⟩
      have hnext := ih running (e :: found) c₁ hmore fun e he => hmore e (List.mem_reverse.mp he)
      refine (hnext.widen hc₁.isInfix).imp ?_
      rintro ⟨t, c'⟩ ⟨ht, hc'⟩
      exact ⟨ht, hc'.trans hc₁⟩

theorem yields_track (c : Cursor) :
    Yields (fun (t, c') => Track.IsWritten t ∧ c'.rest <:+ c.rest) c.rest (track c) := by
  refine (Cursor.yields_chunkHeader c).bind ?_
  rintro ⟨name, size, c₁⟩ ⟨size', -, -, hrest⟩
  have hsuffix : c₁.rest <:+ c.rest := by
    rw [hrest]
    exact List.suffix_append ..
  dsimp only
  split
  · refine ((yields_eventsUpTo _ none [] _ c₁ nofun).widen hsuffix.isInfix).imp ?_
    rintro ⟨t, c'⟩ ⟨ht, hc'⟩
    exact ⟨ht, hc'.trans hsuffix⟩
  · exact .unreadable

theorem tracks_succ (n : Nat) (c : Cursor) : tracks (n + 1) c =
    track c >>= fun (t, c) => tracks n c >>= fun ts => .ok (t :: ts) := by
  rw [tracks]
  rcases track c with fault | ⟨t, c⟩
  · rfl
  · simp only [bind, Except.bind]
    cases tracks n c <;> rfl

theorem yields_tracks (n : Nat) (c : Cursor) :
    Yields (fun ts => ∀ t ∈ ts, Track.IsWritten t) c.rest (tracks n c) := by
  induction n generalizing c with
  | zero => exact .ok nofun
  | succ n ih =>
    rw [tracks_succ]
    refine (yields_track c).bind ?_
    rintro ⟨t, c₁⟩ ⟨ht, hc₁⟩
    refine ((ih c₁).widen hc₁.isInfix).bind ?_
    intro ts hts
    exact .ok (List.forall_mem_cons.mpr ⟨ht, hts⟩)

/-! ## Files -/

/-- A number of two bytes that a file has at some place. -/
def fieldAt (bs : Bytes) (place : Nat) : Int :=
  Bytes.signed 2 (Bytes.ofBigEndian ((bs.drop place).take 2))

/-- Behind the names and sizes of its header, eight bytes, a file has its format, and the ticks
of a beat after the number of its tracks. -/
structure File.IsOf (file : File) (bs : Bytes) : Prop where
  format : file.format = fieldAt bs 8
  ticksPerBeat : file.ticksPerBeat = fieldAt bs 12
  tracks : ∀ t ∈ file.tracks, Track.IsWritten t

/-- A file is read, or it is not written as it has to be, or one of its events about a track
is to blame. -/
theorem yields_read (bs : Bytes) : Yields (fun file => file.IsOf bs) bs (read bs) := by
  refine (Cursor.yields_chunkHeader ⟨0, bs⟩).bind ?_
  rintro ⟨name, size, c⟩ ⟨size', hname, hsize, hrest⟩
  have hplace (place : Nat) (h : place + 2 ≤ (c.rest.take size).length) :
      ((c.rest.take size).drop place).take 2 = (bs.drop (8 + place)).take 2 := by
    have hbs : bs = name ++ size' ++ c.rest := hrest
    have hlength : (name ++ size').length = 8 := by rw [List.length_append, hname, hsize]
    rw [List.length_take] at h
    rw [hbs, ← List.drop_drop, ← hlength, List.drop_left, List.drop_take, List.take_take,
      Nat.min_eq_left (by omega)]
  have hsuffix : c.rest.drop size <:+ bs := by
    have hbs : bs = name ++ size' ++ c.rest := hrest
    rw [hbs]
    exact (List.drop_suffix ..).trans (List.suffix_append ..)
  dsimp only
  split
  · exact .unreadable
  · rename_i hheader
    have hsix : 6 ≤ (c.rest.take size).length := Nat.le_of_not_lt (not_or.mp hheader).2
    refine ((yields_tracks _ _).widen hsuffix.isInfix).bind ?_
    intro ts hts
    exact .ok ⟨congrArg (Bytes.signed 2 <| Bytes.ofBigEndian ·) (hplace 0 (by omega)),
      congrArg (Bytes.signed 2 <| Bytes.ofBigEndian ·) (hplace 4 (by omega)), hts⟩

end Orchestrion.Midi
