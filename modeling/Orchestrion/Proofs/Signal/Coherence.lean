import Orchestrion.Proofs.Context
import Orchestrion.Proofs.Signal.Cache
import Orchestrion.Signal.Bank

set_option autoImplicit false

/-!
# Banks and their caches

Which clip is heard at a pitch depends on the files of a bank alone (`clipOf`).
A bank is coherent when its cache holds nothing but such clips.  No call takes
coherence away, and a coherent bank that has been prepared plays the clip of the
pitch, whatever was played before and however little the cache may hold.
-/

namespace Orchestrion.Bank

variable {α : Type}

/-! ## The clip of a pitch -/

/-- The first of some pitches that has a clip has the path that is found. -/
theorem file?_of_firstWithFile {b : Bank α} {ps : List Int} {source : Int} {path : String}
    (h : b.firstWithFile ps = some (source, path)) : b.file? source = some path := by
  induction ps with
  | nil => cases h
  | cons p rest ih =>
    rw [firstWithFile] at h
    split at h
    · rename_i path' hpath
      cases h
      exact hpath
    · exact ih h

variable [Scalar α]

/-- The clip of a pitch: its own one, or the resampled one of the nearest pitch
that has one; there is none without such a pitch.  No cache is looked at. -/
def clipOf (load : ClipLoader α) (b : Bank α) (pitch : Int) : Except Fault (Option (Clip α)) :=
  match b.file? pitch with
  | some path =>
    match load path with
    | none => .error (.unreadableClip path)
    | some clip => .ok (some clip)
  | none =>
    match b.nearestFile pitch with
    | none => .ok none
    | some (source, path) =>
      match computed (Pitch.ratio pitch source) with
      | .error fault => .error fault
      | .ok ratio =>
        match load path with
        | none => .error (.unreadableClip path)
        | some clip =>
          match clip.resample ratio with
          | .error fault => .error fault
          | .ok clip => .ok (some clip)

theorem clipOf_congr {load : ClipLoader α} {b b' : Bank α} (h : b.files = b'.files)
    (pitch : Int) : b.clipOf load pitch = b'.clipOf load pitch := by
  have hfile : ∀ p, b.file? p = b'.file? p := fun p => by rw [file?, file?, h]
  have hfirst : ∀ ps, b.firstWithFile ps = b'.firstWithFile ps := by
    intro ps
    induction ps with
    | nil => rfl
    | cons p rest ih => rw [firstWithFile, firstWithFile, hfile p, ih]
  rw [clipOf, clipOf, hfile, nearestFile, nearestFile, hfirst]

/-- Whether a clip is the one at the path of a pitch, unchanged, or, for a pitch
without a path, that of the nearest pitch, resampled by the ratio of the two. -/
def IsClip (load : ClipLoader α) (b : Bank α) (pitch : Int) (clip : Clip α) : Prop :=
  (∀ path, b.file? pitch = some path → load path = some clip) ∧
    (b.file? pitch = none → ∃ source path recorded ratio, b.nearest pitch = some source ∧
      b.file? source = some path ∧ load path = some recorded ∧
      Pitch.ratio pitch source = .ok ratio ∧ recorded.resample ratio = .ok clip)

theorem isClip_of_clipOf {load : ClipLoader α} {b : Bank α} {pitch : Int} {clip : Clip α}
    (h : b.clipOf load pitch = .ok (some clip)) : b.IsClip load pitch clip := by
  constructor
  · intro path hpath
    rw [clipOf, hpath] at h
    cases hload : load path with
    | none => simp [hload] at h
    | some recorded => simpa [hload] using h
  · intro hpath
    simp only [clipOf, hpath] at h
    split at h
    · cases h
    · rename_i source path hnearest
      split at h
      · cases h
      · rename_i ratio hratio
        split at h
        · cases h
        · rename_i recorded hload
          split at h
          · cases h
          · rename_i resampled hresample
            cases h
            refine ⟨source, path, recorded, ratio, ?_, file?_of_firstWithFile hnearest, hload,
              eq_ok_of_computed hratio, hresample⟩
            rw [nearest, hnearest]
            rfl

/-- There is no clip only where there is neither a file nor a substitute. -/
theorem clipOf_eq_ok_none_iff {load : ClipLoader α} {b : Bank α} {pitch : Int} :
    b.clipOf load pitch = .ok none ↔ b.file? pitch = none ∧ b.nearest pitch = none := by
  constructor
  · intro h
    cases hpath : b.file? pitch with
    | some path =>
      rw [clipOf, hpath] at h
      cases hload : load path <;> simp [hload] at h
    | none =>
      refine ⟨rfl, ?_⟩
      simp only [clipOf, hpath] at h
      split at h
      · rename_i hnearest
        rw [nearest, hnearest]
        rfl
      · repeat' split at h
        all_goals cases h
  · rintro ⟨hpath, hnearest⟩
    have hnone : b.nearestFile pitch = none := by simpa [nearest] using hnearest
    rw [clipOf, hpath]
    simp only [hnone]

/-! ## Preparing -/

/-- A pitch that is cached needs nothing. -/
theorem prime_of_contains {load : ClipLoader α} {b : Bank α} {pitch : Int}
    (h : b.cache.contains pitch = true) : b.prime load pitch = (.ok (), b, []) := by
  rw [prime, if_pos h]

/-- What preparing does to a pitch that is not cached: the clip of the pitch is
put into the cache when there is one, and nothing is changed when there is none
or it cannot be had.  At most one clip is decoded. -/
theorem prime_of_absent (load : ClipLoader α) {b : Bank α} {pitch : Int}
    (h : b.cache.contains pitch = false) :
    ∃ trace, (Event.decodings trace).length ≤ 1 ∧
      ((∃ fault, b.clipOf load pitch = .error fault ∧
          b.prime load pitch = (.error fault, b, trace)) ∨
        (b.clipOf load pitch = .ok none ∧ b.prime load pitch = (.ok (), b, trace)) ∨
        ∃ clip, b.clipOf load pitch = .ok (some clip) ∧
          b.prime load pitch = b.store pitch clip trace) := by
  rw [prime, if_neg (by simp [h]), clipOf]
  cases b.file? pitch with
  | some path =>
    refine ⟨[.decoding path], Nat.le_refl _, ?_⟩
    cases hload : load path with
    | none => exact .inl ⟨.unreadableClip path, by simp only [hload], by simp only [hload]⟩
    | some clip => exact .inr (.inr ⟨clip, by simp only [hload], by simp only [hload]⟩)
  | none =>
    let told : List Event := [.warning (.noClip b.name.shown pitch)]
    cases b.nearestFile pitch with
    | none =>
      exact ⟨told ++ [.warning (.noSubstitute b.name.shown pitch)], Nat.zero_le _,
        .inr (.inl ⟨rfl, rfl⟩)⟩
    | some found =>
      obtain ⟨source, path⟩ := found
      cases hratio : computed (Pitch.ratio (α := α) pitch source) with
      | error fault =>
        exact ⟨told, Nat.zero_le _,
          .inl ⟨fault, by simp only [hratio], by simp only [hratio, told]⟩⟩
      | ok ratio =>
        refine ⟨told ++ [.decoding path], Nat.le_refl _, ?_⟩
        cases hload : load path with
        | none =>
          exact .inl ⟨.unreadableClip path, by simp only [hratio, hload],
            by simp only [hratio, hload, told]⟩
        | some recorded =>
          cases hresample : recorded.resample ratio with
          | error fault =>
            exact .inl ⟨fault, by simp only [hratio, hload, hresample],
              by simp only [hratio, hload, hresample, told]⟩
          | ok clip =>
            exact .inr (.inr ⟨clip, by simp only [hratio, hload, hresample],
              by simp only [hratio, hload, hresample, told]⟩)

/-! ## Coherence -/

/-- Whether a cache holds nothing but the clips of its pitches. -/
def Coherent (load : ClipLoader α) (b : Bank α) : Prop :=
  ∀ e ∈ b.cache.entries, b.clipOf load e.1 = .ok (some e.2)

theorem Coherent.find? {load : ClipLoader α} {b : Bank α} {pitch : Int} {clip : Clip α}
    (h : b.Coherent load) (hfind : b.cache.find? pitch = some clip) :
    b.clipOf load pitch = .ok (some clip) :=
  h (pitch, clip) (PitchCache.mem_of_find? hfind)

/-- What keeps the files and adds nothing but clips of their pitches keeps a bank
coherent. -/
theorem Coherent.of_entries {load : ClipLoader α} {b b' : Bank α} (h : b.Coherent load)
    (hfiles : b'.files = b.files)
    (hentries : ∀ e ∈ b'.cache.entries,
      e ∈ b.cache.entries ∨ b.clipOf load e.1 = .ok (some e.2)) : b'.Coherent load := by
  intro e he
  rw [clipOf_congr hfiles]
  rcases hentries e he with hold | hnew
  · exact h e hold
  · exact hnew

/-- A bank without clips in its cache is coherent. -/
theorem coherent_of_entries_eq_nil {load : ClipLoader α} {b : Bank α}
    (h : b.cache.entries = []) : b.Coherent load := by
  intro e he
  rw [h] at he
  cases he

/-- Preparing changes neither the files nor the limit, and keeps coherence. -/
theorem prime_invariant {load : ClipLoader α} {b : Bank α} (h : b.Coherent load) (pitch : Int) :
    (b.prime load pitch).2.1.files = b.files ∧
      (b.prime load pitch).2.1.cache.limit = b.cache.limit ∧
      (b.prime load pitch).2.1.Coherent load := by
  cases hcached : b.cache.contains pitch with
  | true =>
    rw [prime_of_contains hcached]
    exact ⟨rfl, rfl, h⟩
  | false =>
    obtain ⟨trace, _, ⟨fault, _, heq⟩ | ⟨_, heq⟩ | ⟨clip, hclip, heq⟩⟩ :=
      prime_of_absent load hcached
    · rw [heq]
      exact ⟨rfl, rfl, h⟩
    · rw [heq]
      exact ⟨rfl, rfl, h⟩
    · rw [heq]
      refine ⟨rfl, rfl, h.of_entries rfl fun e he => ?_⟩
      rcases PitchCache.mem_of_mem_put he with rfl | hold
      · exact .inr hclip
      · exact .inl hold

/-- Preparing a pitch that is not cached: it is added as the most recent one and
the least recent ones go, or nothing is changed. -/
theorem prime_entries {load : ClipLoader α} {b : Bank α} {pitch : Int} {limit : Option Nat}
    (hlimit : b.cache.limit = limit.map Int.ofNat) (h : b.cache.contains pitch = false) :
    (Event.decodings (b.prime load pitch).2.2).length ≤ 1 ∧
      ((b.prime load pitch).1 = .ok () → b.file? pitch ≠ none ∨ b.nearest pitch ≠ none →
        ∃ clip, b.IsClip load pitch clip ∧ (b.prime load pitch).2.1 =
          { b with cache :=
            ⟨b.cache.limit, (b.cache.entries ++ [(pitch, clip)]).drop
              (limit.elim 0 fun n => b.cache.entries.length + 1 - n)⟩ }) ∧
      ((∃ fault, (b.prime load pitch).1 = .error fault) ∨
          (b.file? pitch = none ∧ b.nearest pitch = none) →
        (b.prime load pitch).2.1 = b) := by
  obtain ⟨trace, htrace, ⟨fault, hclip, heq⟩ | ⟨hclip, heq⟩ | ⟨clip, hclip, heq⟩⟩ :=
    prime_of_absent load h
  · rw [heq]
    exact ⟨htrace, fun hok => (by cases hok), fun _ => rfl⟩
  · rw [heq]
    refine ⟨htrace, fun _ hsome => ?_, fun _ => rfl⟩
    obtain ⟨hfile, hnearest⟩ := clipOf_eq_ok_none_iff.mp hclip
    rcases hsome with hsome | hsome
    · exact absurd hfile hsome
    · exact absurd hnearest hsome
  · rw [heq, store, if_pos (PitchCache.limitHolds_of_nat hlimit)]
    refine ⟨htrace, fun _ _ => ⟨clip, isClip_of_clipOf hclip, ?_⟩, ?_⟩
    · have hput : b.cache.put pitch clip = ⟨b.cache.limit, (b.cache.put pitch clip).entries⟩ := rfl
      rw [hput, PitchCache.entries_put_of_absent h, hlimit]
      cases limit with
      | none => rfl
      | some n => simp [PitchCache.evict]
    · rintro (⟨fault, hfault⟩ | hnone)
      · cases hfault
      · rw [clipOf_eq_ok_none_iff.mpr hnone] at hclip
        cases hclip

/-- What preparing a coherent bank comes to: the fault of the clip of the pitch,
or else that the pitch finds its clip. -/
theorem prime_result {load : ClipLoader α} {b : Bank α} (h : b.Coherent load)
    (hlimit : PitchCache.IsRoomy b.cache.limit) (pitch : Int) :
    (∃ fault, b.clipOf load pitch = .error fault ∧ (b.prime load pitch).1 = .error fault) ∨
      ∃ clip?, b.clipOf load pitch = .ok clip? ∧ (b.prime load pitch).1 = .ok () ∧
        (b.prime load pitch).2.1.cache.find? pitch = clip? := by
  cases hcached : b.cache.contains pitch with
  | true =>
    rw [prime_of_contains hcached]
    cases hfind : b.cache.find? pitch with
    | none =>
      rw [PitchCache.find?_eq_none_iff.mp hfind] at hcached
      cases hcached
    | some clip => exact .inr ⟨some clip, h.find? hfind, rfl, rfl⟩
  | false =>
    obtain ⟨trace, _, ⟨fault, hclip, heq⟩ | ⟨hclip, heq⟩ | ⟨clip, hclip, heq⟩⟩ :=
      prime_of_absent load hcached
    · rw [heq]
      exact .inl ⟨fault, hclip, rfl⟩
    · rw [heq]
      exact .inr ⟨none, hclip, rfl, PitchCache.find?_eq_none_iff.mpr hcached⟩
    · rw [heq]
      have hholds : b.cache.limitHolds = true := PitchCache.limitHolds_of_isRoomy hlimit
      refine .inr ⟨some clip, hclip, ?_, PitchCache.find?_put hlimit pitch clip⟩
      rw [store, if_pos hholds]

/-! ## Playing -/

/-- The value of a clip, if there is one, at the sample of a context. -/
def played (ctx : Context α) : Option (Clip α) → Except Fault (Option α)
  | none => .ok none
  | some clip =>
    match intValue ctx Context.sampleName with
    | .error fault => .error fault
    | .ok index =>
      match sampleOf clip index with
      | .ok x => .ok (some x)
      | .error fault => .error fault

/-- A bank plays what it finds, and nothing else of its state matters. -/
theorem carrier_fst (b : Bank α) (ctx : Context α) :
    (b.carrier ctx).1 =
      match intValue ctx Context.pitchName with
      | .error fault => .error fault
      | .ok pitch => played ctx (b.cache.find? pitch) := by
  rw [carrier]
  cases intValue ctx Context.pitchName with
  | error fault => rfl
  | ok pitch =>
    simp only [buffer, played]
    cases b.cache.find? pitch with
    | none => rfl
    | some clip =>
      cases intValue ctx Context.sampleName with
      | error fault => rfl
      | ok index => cases hsample : sampleOf clip index <;> simp only [hsample]

/-- Playing marks at most one pitch as used. -/
theorem carrier_snd (b : Bank α) (ctx : Context α) :
    (b.carrier ctx).2 = b ∨
      ∃ pitch, (b.carrier ctx).2 = { b with cache := b.cache.touch pitch } := by
  rw [carrier]
  cases intValue ctx Context.pitchName with
  | error fault => exact .inl rfl
  | ok pitch =>
    refine .inr ⟨pitch, ?_⟩
    simp only [buffer]
    cases b.cache.find? pitch with
    | none => rfl
    | some clip =>
      cases intValue ctx Context.sampleName with
      | error fault => rfl
      | ok index => cases hsample : sampleOf clip index <;> simp only [hsample]

/-- Behind the beginning of a clip, each index has its sample, or silence when
the clip is over. -/
theorem sampleOf_of_nonneg (clip : Clip α) {index : Int} (h : 0 ≤ index) :
    sampleOf clip index = .ok ((clip[index.toNat]?).getD 0.0) := by
  unfold sampleOf
  split
  · rename_i hlt
    have hbound : index.toNat < clip.size := by omega
    simp [Clip.at?, h, hbound]
  · rename_i hge
    have hbound : clip.size ≤ index.toNat := by omega
    simp [Array.getElem?_eq_none hbound]

/-! ## Calls -/

/-- A call of a bank. -/
inductive Call (α : Type) where
  | prime (ctx : Context α)
  | carrier (ctx : Context α)
  | modulation (ctx : Context α)
  | buffer (pitch : Int)
  | nearest (pitch : Int)

/-- The bank after a call. -/
def after (load : ClipLoader α) (b : Bank α) : Call α → Bank α
  | .prime ctx => (b.primeIn load ctx).2.1
  | .carrier ctx => (b.carrier ctx).2
  | .buffer pitch => (b.buffer pitch).2
  -- the others only look
  | .modulation _ => b
  | .nearest _ => b

/-- The bank after some calls, one after the other. -/
def afterAll (load : ClipLoader α) (b : Bank α) (calls : List (Call α)) : Bank α :=
  calls.foldl (after load) b

/-- Marking a pitch as used keeps coherence. -/
theorem touch_invariant {load : ClipLoader α} {b : Bank α} (h : b.Coherent load) (pitch : Int) :
    Coherent load { b with cache := b.cache.touch pitch } :=
  h.of_entries rfl fun _ he => .inl (PitchCache.mem_of_mem_touch he)

/-- No call changes the files or the limit, or takes coherence away. -/
theorem after_invariant {load : ClipLoader α} {b : Bank α} (h : b.Coherent load)
    (call : Call α) :
    (b.after load call).files = b.files ∧
      (b.after load call).cache.limit = b.cache.limit ∧
      (b.after load call).Coherent load := by
  cases call with
  | prime ctx =>
    rw [after, primeIn]
    cases intValue ctx Context.pitchName with
    | error fault => exact ⟨rfl, rfl, h⟩
    | ok pitch => exact prime_invariant h pitch
  | carrier ctx =>
    rw [after]
    rcases b.carrier_snd ctx with heq | ⟨pitch, heq⟩
    · rw [heq]
      exact ⟨rfl, rfl, h⟩
    · rw [heq]
      exact ⟨rfl, PitchCache.limit_touch _ _, touch_invariant h pitch⟩
  | buffer pitch => exact ⟨rfl, PitchCache.limit_touch _ _, touch_invariant h pitch⟩
  | modulation ctx => exact ⟨rfl, rfl, h⟩
  | nearest pitch => exact ⟨rfl, rfl, h⟩

/-- What one call keeps, any number of calls keep. -/
theorem afterAll_invariant {load : ClipLoader α} {b : Bank α} (h : b.Coherent load)
    (calls : List (Call α)) :
    (b.afterAll load calls).files = b.files ∧
      (b.afterAll load calls).cache.limit = b.cache.limit ∧
      (b.afterAll load calls).Coherent load := by
  induction calls generalizing b with
  | nil => exact ⟨rfl, rfl, h⟩
  | cons call rest ih =>
    obtain ⟨hfiles, hlimit, hcoherent⟩ := after_invariant h call
    obtain ⟨hfiles', hlimit', hcoherent'⟩ := ih hcoherent
    exact ⟨hfiles'.trans hfiles, hlimit'.trans hlimit, hcoherent'⟩

/-- **A bank never plays a wrong clip.**  From a bank with an empty cache, of any
files and any limit, and after any calls: every cached clip is the one at the
path of its pitch, unchanged, or the resampled clip of the nearest pitch that has
one.  Preparing a cached pitch decodes nothing and changes nothing.  Preparing
another one decodes at most one clip; it adds the pitch as the most recent one
and drops the least recent ones, or, when it fails or finds no substitute,
changes nothing.  When the cache may hold anything at all, a pitch that has been
prepared is played from its clip, and is silent when the clip is over. -/
theorem coherent_afterAll (load : ClipLoader α) (name : Document.Atom)
    (files : List (Int × String)) (limit : Option Nat) (calls : List (Call α)) :
    let b := afterAll load ⟨name, files, .empty (limit.map Int.ofNat)⟩ calls
    b.files = files ∧
    (∀ pitch clip, (pitch, clip) ∈ b.cache.entries → b.IsClip load pitch clip) ∧
    (∀ pitch, b.cache.contains pitch = true → b.prime load pitch = (.ok (), b, [])) ∧
    (∀ pitch, b.cache.contains pitch = false →
      (Event.decodings (b.prime load pitch).2.2).length ≤ 1 ∧
      ((b.prime load pitch).1 = .ok () → b.file? pitch ≠ none ∨ b.nearest pitch ≠ none →
        ∃ clip, b.IsClip load pitch clip ∧ (b.prime load pitch).2.1 =
          { b with cache :=
            ⟨b.cache.limit, (b.cache.entries ++ [(pitch, clip)]).drop
              (limit.elim 0 fun n => b.cache.entries.length + 1 - n)⟩ }) ∧
      ((∃ fault, (b.prime load pitch).1 = .error fault) ∨
          (b.file? pitch = none ∧ b.nearest pitch = none) →
        (b.prime load pitch).2.1 = b)) ∧
    (limit ≠ some 0 → ∀ pitch, (b.prime load pitch).1 = .ok () →
      b.file? pitch ≠ none ∨ b.nearest pitch ≠ none →
      ∃ clip, b.IsClip load pitch clip ∧
        (b.prime load pitch).2.1.cache.find? pitch = some clip ∧
        ∀ ctx index, intValue ctx Context.pitchName = .ok pitch →
          intValue ctx Context.sampleName = .ok index → 0 ≤ index →
          ((b.prime load pitch).2.1.carrier ctx).1 = .ok (some ((clip[index.toNat]?).getD 0.0))) := by
  intro b
  obtain ⟨hfiles, hlimit, hcoherent⟩ : b.files = files ∧
      b.cache.limit = limit.map Int.ofNat ∧ b.Coherent load :=
    afterAll_invariant (coherent_of_entries_eq_nil rfl) calls
  refine ⟨hfiles, ?_, fun _ => prime_of_contains, fun _ => prime_entries hlimit, ?_⟩
  · intro pitch clip hmem
    exact isClip_of_clipOf (hcoherent (pitch, clip) hmem)
  · intro hzero pitch hok hsome
    have hroomy : PitchCache.IsRoomy b.cache.limit := by
      rw [hlimit]
      cases limit with
      | none => exact PitchCache.isRoomy_none
      | some n =>
        have hpos : n ≠ 0 := fun h => hzero (by rw [h])
        refine PitchCache.isRoomy_some.mpr ?_
        simp only [Int.ofNat_eq_natCast]
        omega
    rcases prime_result hcoherent hroomy pitch with ⟨fault, _, hfault⟩ | ⟨clip?, hclip, _, hfind⟩
    · rw [hfault] at hok
      cases hok
    · cases clip? with
      | none =>
        obtain ⟨hfile, hnearest⟩ := clipOf_eq_ok_none_iff.mp hclip
        rcases hsome with hsome | hsome
        · exact absurd hfile hsome
        · exact absurd hnearest hsome
      | some clip =>
        refine ⟨clip, isClip_of_clipOf hclip, hfind, fun ctx index hpitch hindex hnonneg => ?_⟩
        rw [carrier_fst, hpitch]
        simp only [hfind, played, hindex, sampleOf_of_nonneg clip hnonneg]

end Orchestrion.Bank
