import Orchestrion.Proofs.Binary64.Integers
import Orchestrion.Proofs.Context
import Orchestrion.Signal.Resample

set_option autoImplicit false

/-!
# Resampling

Sample `i` of a resampled clip has its place `i * ratio` in the clip, as the product is
rounded.  What is heard there is told without the arithmetic of the clip: the sample with
the nearest index (`Clip.indexAt?`), or silence.  Rounding keeps the order, and so the
places run forward: the indices that are read never go back, and where silence has begun
it stays.  In the end all samples are rounded to single precision, which makes no
difference to those of a clip that is in single precision already.
-/

namespace Orchestrion

open Scalar (Places)

namespace Clip

variable {α : Type}

/-! ## Indices -/

/-- The index that is read at a place of a clip: the nearest integer, halves up, as long
as the place is not past the last but one sample. -/
noncomputable def indexAt? (size : Nat) (place : EReal) : Option ℤ :=
  open Classical in
  if place ≤ (((size - 2 : ℤ) : ℝ) : EReal) then some (round place.toReal) else none

section

variable {size : Nat} {p q : EReal} {j j' : ℤ}

open Classical in
theorem indexAt?_eq : indexAt? size p =
    if p ≤ ↑((size : ℝ) - 2) then some (round p.toReal) else none := by
  rw [indexAt?, Int.cast_sub, Int.cast_natCast, Int.cast_ofNat]

theorem indexAt?_eq_none_iff : indexAt? size p = none ↔ ↑((size : ℝ) - 2) < p := by
  rw [indexAt?_eq, ← not_le, ite_eq_right_iff]
  exact imp_congr_right fun _ => iff_of_false nofun id

/-- A place at which an index is read. -/
theorem exists_of_indexAt? (hp : 0 ≤ p) (h : indexAt? size p = some j) :
    ∃ a : ℝ, p = ↑a ∧ 0 ≤ a ∧ a ≤ size - 2 ∧ j = ⌊a + 1 / 2⌋ := by
  rw [indexAt?_eq] at h
  split_ifs at h with hle
  rw [← EReal.coe_zero] at hp
  obtain ⟨a, rfl, hlow, hhigh⟩ := Scalar.Faithful.exists_coe_of_between hp hle
  rw [EReal.toReal_coe, round_eq, Option.some_inj] at h
  exact ⟨a, rfl, hlow, hhigh, h.symm⟩

theorem indexAt?_coe {a : ℝ} (h : a ≤ size - 2) : indexAt? size ↑a = some (round a) := by
  rw [indexAt?_eq, if_pos (EReal.coe_le_coe_iff.mpr h), EReal.toReal_coe]

/-- An index that is read is one of the clip. -/
theorem bounds_of_indexAt? (hp : 0 ≤ p) (h : indexAt? size p = some j) : 0 ≤ j ∧ j < size := by
  obtain ⟨a, -, hlow, hhigh, rfl⟩ := exists_of_indexAt? hp h
  refine ⟨Int.floor_nonneg.mpr (by linarith), Int.floor_lt.mpr ?_⟩
  rw [Int.cast_natCast]
  linarith

theorem indexAt?_mono (hp : 0 ≤ p) (hpq : p ≤ q) (hj : indexAt? size p = some j)
    (hj' : indexAt? size q = some j') : j ≤ j' := by
  obtain ⟨a, rfl, -, -, rfl⟩ := exists_of_indexAt? hp hj
  obtain ⟨b, rfl, -, -, rfl⟩ := exists_of_indexAt? (hp.trans hpq) hj'
  have hab : a ≤ b := EReal.coe_le_coe_iff.mp hpq
  exact Int.floor_mono (by linarith)

end

section

variable [Scalar α] (clip : Clip α)

/-- What is heard at a place: the sample with the index that is read, or silence. -/
noncomputable def heardAt (place : EReal) : α :=
  (indexAt? clip.size place).elim 0.0 fun j => clip[j.toNat]?.getD 0.0

/-- Where an index is read, the sample with that index is heard. -/
theorem getElem?_of_indexAt? {p : EReal} {j : ℤ} (hp : 0 ≤ p)
    (hj : indexAt? clip.size p = some j) : clip[j.toNat]? = some (clip.heardAt p) := by
  obtain ⟨hlow, hlt⟩ := bounds_of_indexAt? hp hj
  have hget : clip[j.toNat]? = some clip[j.toNat] := Array.getElem?_eq_getElem (by omega)
  rw [heardAt, hj, Option.elim_some, hget, Option.getD_some]

theorem heardAt_of_none {p : EReal} (hp : indexAt? clip.size p = none) :
    clip.heardAt p = 0.0 := by
  rw [heardAt, hp, Option.elim_none]

/-- A clip of single precision: rounding leaves its samples, and silence, as they are. -/
structure IsSingle : Prop where
  samples : ∀ x ∈ clip, Scalar.single x = x
  silence : Scalar.single (0.0 : α) = 0.0

/-- What is heard at the places of a clip, one after the other. -/
noncomputable def heard (place : Nat → EReal) : Clip α :=
  ((List.range (clip.size - 1)).map fun i => clip.heardAt (place i)).toArray

@[simp] theorem size_heard (place : Nat → EReal) : (clip.heard place).size = clip.size - 1 := by
  simp [heard]

theorem getElem?_heard (place : Nat → EReal) {i : Nat} (hi : i < clip.size - 1) :
    (clip.heard place)[i]? = some (clip.heardAt (place i)) := by
  simp [heard, hi]

end

/-- The place of a sample, as the product is rounded. -/
noncomputable def placeOf (α : Type) [Scalar α] [Places α] (r : ℝ) (i : Nat) : EReal :=
  Places.round α (i * r)

/-! ## Samples -/

variable [Scalar α]

/-- Samples that are all there come one after the other. -/
theorem resampleFrom_eq {clip : Clip α} {ratio : α} {length : Nat} {heard : Nat → α}
    {is : List Nat} (found : List α) (h : ∀ i ∈ is, ∃ x, Scalar.ofInt i = .ok x ∧
      clip.sampleAt length (x * ratio) = .ok (heard i)) :
    clip.resampleFrom ratio length found is = .ok (found.reverse ++ is.map heard).toArray := by
  induction is generalizing found with
  | nil => rw [resampleFrom, List.map_nil, List.append_nil]
  | cons i is ih =>
    obtain ⟨⟨x, hx, hsample⟩, hrest⟩ := List.forall_mem_cons.mp h
    have hcomputed : computed (Scalar.ofInt i) = .ok x := by rw [hx]; rfl
    rw [resampleFrom, hcomputed]
    simp only [hsample]
    rw [ih _ hrest, List.reverse_cons, List.append_assoc]
    rfl

variable [Places α] {clip : Clip α} {x : α}

/-- The nearest integer, halves up, is the one below or the next. -/
theorem round_eq_of_fract (a : ℝ) :
    round a = if 1 / 2 ≤ Int.fract a then ⌊a⌋ + 1 else ⌊a⌋ := by
  have hsplit := Int.floor_add_fract a
  have hlt := Int.fract_lt_one a
  rw [round_eq]
  split_ifs with hle
  · rw [Int.floor_eq_iff]
    push_cast
    constructor <;> linarith
  · have hnonneg := Int.fract_nonneg a
    rw [Int.floor_eq_iff]
    constructor <;> linarith

/-- The nearest index of a place is the nearest integer, halves up. -/
theorem nearestIndex_eq {a : ℝ} {size : Nat} (hsize : Places.FixesBelow α size)
    (hx : Places.value x = some ↑a) (ha : 0 ≤ a) (hlt : a < size) :
    nearestIndex x = .ok (round a) := by
  obtain ⟨k, hk⟩ := Int.eq_ofNat_of_zero_le (Int.floor_nonneg.mpr ha)
  have hksize : k < size := by
    have hfloor : (k : ℝ) ≤ a := by
      have := Int.floor_le a
      rwa [hk, Int.cast_natCast] at this
    exact_mod_cast hfloor.trans_lt hlt
  obtain ⟨⟨y, hy, hvalue⟩, -⟩ := hsize k hksize
  have hfract : Places.value (x - y) = some ↑(Int.fract a) := by
    refine Places.value_fract x y a ha hx ?_
    rw [hvalue, hk, Int.cast_natCast]
  have hhalf : Scalar.le 0.5 (x - y) = true ↔ 1 / 2 ≤ Int.fract a :=
    (Places.le_of_values Places.value_half hfract).trans EReal.coe_le_coe_iff
  rw [nearestIndex, Places.floor_eq x a hx, hk, round_eq_of_fract, hk]
  show (Scalar.ofInt (α := α) k >>= fun floor => _) = _
  rw [hy]
  simp only [bind, Except.bind, pure, Except.pure, hhalf]

/-- What is heard at a place is told by its value. -/
theorem sampleAt_eq {p : EReal} (hsize : Places.FixesBelow α clip.size) (hclip : 2 ≤ clip.size)
    (hx : Places.value x = some p) (hp : 0 ≤ p) :
    clip.sampleAt (clip.size - 1) x = .ok (clip.heardAt p) := by
  have hlast : ((clip.size - 1 : Nat) : Int) - 1 = (clip.size - 2 : Nat) := by omega
  obtain ⟨⟨last, hofInt, hvalue⟩, -⟩ := hsize (clip.size - 2) (by omega)
  have hcomputed : computed (Scalar.ofInt (α := α) (clip.size - 2 : Nat)) = .ok last := by
    rw [hofInt]
    rfl
  rw [Nat.cast_sub hclip, Nat.cast_ofNat] at hvalue
  have hle : Scalar.le x last = true ↔ p ≤ ↑((clip.size : ℝ) - 2) :=
    Places.le_of_values hx hvalue
  rw [sampleAt, hlast, hcomputed]
  cases hindex : indexAt? clip.size p with
  | none =>
    have hpast : ¬Scalar.le x last = true := by
      rw [hle]
      exact not_le.mpr (indexAt?_eq_none_iff.mp hindex)
    simp only [if_neg hpast, heardAt_of_none clip hindex]
  | some j =>
    obtain ⟨hnonneg, hlt⟩ := bounds_of_indexAt? hp hindex
    obtain ⟨a, rfl, ha, hhigh, hj⟩ := exists_of_indexAt? hp hindex
    have hnearest : nearestIndex x = .ok j := by
      rw [nearestIndex_eq hsize hx ha (by linarith), round_eq, hj]
    have hget := getElem?_of_indexAt? clip hp hindex
    simp only [if_pos (hle.mpr (EReal.coe_le_coe_iff.mpr hhigh)), hnearest, at?, if_pos hnonneg,
      hget]

/-! ## Whole clips -/

/-- A clip that is read at places in order. -/
structure IsReading (clip : Clip α) (ratio : α) (place : Nat → EReal) (out : Clip α) : Prop where
  /-- the result is one sample shorter -/
  size_eq : out.size = clip.size - 1
  heard : ∀ i < out.size, ∀ j, indexAt? clip.size (place i) = some j → out[i]? = clip[j.toNat]?
  silent : ∀ i < out.size, indexAt? clip.size (place i) = none → out[i]? = some 0.0
  /-- no index is read that the clip does not have -/
  read : ∀ i < out.size, ∀ j, indexAt? clip.size (place i) = some j →
    ∃ x : α, Scalar.ofInt i = .ok x ∧ nearestIndex (x * ratio) = .ok j ∧ 0 ≤ j ∧ j < clip.size
  forward : ∀ i i', i ≤ i' → i' < out.size → ∀ j j', indexAt? clip.size (place i) = some j →
    indexAt? clip.size (place i') = some j' → j ≤ j'
  /-- where silence has begun it stays -/
  stays : ∀ i i', i ≤ i' → indexAt? clip.size (place i) = none →
    indexAt? clip.size (place i') = none

section

variable {r : ℝ} {size i i' : Nat}

theorem value_place {ratio : α} (hratio : Places.value ratio = some ↑r)
    (hsize : Places.FixesBelow α size) (hi : i < size) :
    ∃ x : α, Scalar.ofInt i = .ok x ∧ Places.value (x * ratio) = some (placeOf α r i) := by
  obtain ⟨⟨x, hx, hvalue⟩, -⟩ := hsize i hi
  exact ⟨x, hx, Places.value_mul x ratio i r hvalue hratio⟩

theorem placeOf_mono (hr : 0 ≤ r) (h : i ≤ i') : placeOf α r i ≤ placeOf α r i' :=
  Places.round_mono (mul_le_mul_of_nonneg_right (by exact_mod_cast h) hr)

theorem placeOf_nonneg (hr : 0 ≤ r) (hsize : Places.FixesBelow α size) (hi : i < size) :
    0 ≤ placeOf α r i :=
  Places.round_nonneg hsize (Nat.zero_lt_of_lt hi) (by positivity)

end

/-- A clip whose size can be counted is resampled, and what is heard is known. -/
theorem resample_eq {ratio : α} {r : ℝ} (hratio : Places.value ratio = some ↑r) (hr : 0 ≤ r)
    (hsize : Places.FixesBelow α clip.size) :
    clip.resample ratio = .ok ((clip.heard (placeOf α r)).map Scalar.single) := by
  have hheard : clip.resampleFrom ratio (clip.size - 1) [] (List.range (clip.size - 1)) =
      .ok (clip.heard (placeOf α r)) := by
    apply resampleFrom_eq []
    intro i hi
    have hlt : i < clip.size - 1 := List.mem_range.mp hi
    obtain ⟨x, hx, hvalue⟩ := value_place hratio hsize (by omega : i < clip.size)
    exact ⟨x, hx, sampleAt_eq hsize (by omega) hvalue (placeOf_nonneg hr hsize (by omega))⟩
  simp only [resample, hheard]
  rfl

omit [Places α] in
/-- What is heard in a clip of single precision is in single precision. -/
theorem single_heard (h : clip.IsSingle) (place : Nat → EReal) :
    (clip.heard place).map Scalar.single = clip.heard place := by
  have hsample (p : EReal) : Scalar.single (clip.heardAt p) = clip.heardAt p := by
    unfold heardAt
    cases indexAt? clip.size p with
    | none => exact h.silence
    | some j =>
      rw [Option.elim_some]
      cases hget : clip[j.toNat]? with
      | none => exact h.silence
      | some x => exact h.samples x (Array.mem_of_getElem? hget)
  rw [heard, List.map_toArray, List.map_map]
  congr 1
  exact List.map_congr_left fun i _ => hsample (place i)

/-- What is heard at places that run forward. -/
theorem isReading_heard {ratio : α} {r : ℝ} (hratio : Places.value ratio = some ↑r) (hr : 0 ≤ r)
    (hsize : Places.FixesBelow α clip.size) :
    clip.IsReading ratio (placeOf α r) (clip.heard (placeOf α r)) := by
  have hnonneg {i : Nat} (hi : i < clip.size - 1) : 0 ≤ placeOf α r i :=
    placeOf_nonneg hr hsize (by omega)
  refine ⟨clip.size_heard _, ?_, ?_, ?_, ?_, ?_⟩
  · intro i hi j hj
    rw [size_heard] at hi
    rw [getElem?_heard _ _ hi, getElem?_of_indexAt? clip (hnonneg hi) hj]
  · intro i hi hnone
    rw [size_heard] at hi
    rw [getElem?_heard _ _ hi, heardAt_of_none clip hnone]
  · intro i hi j hj
    rw [size_heard] at hi
    obtain ⟨x, hx, hvalue⟩ := value_place hratio hsize (by omega : i < clip.size)
    obtain ⟨a, ha, hlow, hhigh, rfl⟩ := exists_of_indexAt? (hnonneg hi) hj
    rw [ha] at hvalue
    refine ⟨x, hx, ?_, bounds_of_indexAt? (hnonneg hi) hj⟩
    rw [nearestIndex_eq hsize hvalue hlow (by linarith), round_eq]
  · intro i i' hle hi' j j' hj hj'
    rw [size_heard] at hi'
    exact indexAt?_mono (hnonneg (by omega)) (placeOf_mono hr hle) hj hj'
  · intro i i' hle hnone
    rw [indexAt?_eq_none_iff] at hnone ⊢
    exact hnone.trans_le (placeOf_mono hr hle)

/-- At its own frequency a clip is read sample by sample. -/
theorem heard_own (hsize : Places.FixesBelow α clip.size) :
    clip.heard (placeOf α 1) = clip.take (clip.size - 1) := by
  apply Array.ext_getElem?
  intro i
  rw [Array.take_eq_extract, Array.getElem?_extract, Nat.sub_zero, Nat.zero_add]
  split_ifs with hi
  · have hlt : i < clip.size - 1 := by omega
    have hbound : (i : ℝ) ≤ clip.size - 2 := by
      have hcast : ((i + 2 : ℕ) : ℝ) ≤ clip.size := by
        exact_mod_cast (by omega : i + 2 ≤ clip.size)
      push_cast at hcast
      linarith
    have hplace : placeOf α 1 i = ↑(i : ℝ) := by
      rw [placeOf, mul_one]
      exact (hsize i (by omega)).2
    have hindex : indexAt? clip.size (placeOf α 1 i) = some (i : ℤ) := by
      rw [hplace, indexAt?_coe hbound, round_natCast]
    have hnonneg : 0 ≤ placeOf α 1 i := placeOf_nonneg zero_le_one hsize (by omega : i < clip.size)
    have hget := getElem?_of_indexAt? clip hnonneg hindex
    rw [Int.toNat_natCast] at hget
    rw [getElem?_heard _ _ hlt, hget]
  · exact Array.getElem?_eq_none (by rw [size_heard]; omega)

/-- **The nearest sample of each place.**  A clip is read at the places `i * ratio`, as
products are rounded, if only rounding keeps the order and leaves the integers below the
size of the clip.  The result is one sample shorter than the clip.  At a place that is not
past the last but one sample the sample with the nearest index is heard, halves up, and
there is silence at the others.  No index is read that the clip does not have, none is
less than one read before, and silence stays.  At its own frequency a clip only loses its
last sample.  The samples come out in single precision, and those of a clip in single
precision as they are. -/
theorem resample_nearest {ratio : α} {r : ℝ} (hratio : Places.value ratio = some ↑r) (hr : 0 < r)
    (hsize : Places.FixesBelow α clip.size) :
    ∃ out : Clip α, clip.resample ratio = .ok (out.map Scalar.single) ∧
      (clip.IsSingle → clip.resample ratio = .ok out) ∧
      clip.IsReading ratio (placeOf α r) out ∧ (r = 1 → out = clip.take (clip.size - 1)) := by
  have hresample := resample_eq hratio hr.le hsize
  refine ⟨_, hresample, fun h => ?_, isReading_heard hratio hr.le hsize, ?_⟩
  · rw [hresample, single_heard h]
  · rintro rfl
    exact heard_own hsize

/-! ## Four samples, half as fast again -/

/-- The second place is halfway between two samples, and the third one too late. -/
theorem IsReading.at_threeHalves {ratio : α} {out : Clip α}
    (h : clip.IsReading ratio (placeOf α (3 / 2)) out) (hclip : clip.size = 4)
    (hone : Places.round α (3 / 2) = ↑(3 / 2 : ℝ)) (htwo : Places.round α 3 = ↑(3 : ℝ)) :
    out[1]? = clip[2]? ∧ out[2]? = some (0.0 : α) := by
  have hsize : out.size = 3 := by rw [h.size_eq, hclip]
  have hfirst : placeOf α (3 / 2) 1 = ↑(3 / 2 : ℝ) := by rw [placeOf, Nat.cast_one, one_mul, hone]
  have hsecond : placeOf α (3 / 2) 2 = ↑(3 : ℝ) := by
    have hproduct : ((2 : ℕ) : ℝ) * (3 / 2) = 3 := by norm_num
    rw [placeOf, hproduct, htwo]
  have hround : round (3 / 2 : ℝ) = 2 := by
    rw [round_eq]
    norm_num
  refine ⟨h.heard 1 (by omega) 2 ?_, h.silent 2 (by omega) ?_⟩
  · rw [hclip, hfirst, indexAt?_coe (by norm_num), hround]
  · rw [hclip, hsecond, indexAt?_eq_none_iff, EReal.coe_lt_coe_iff]
    norm_num

end Clip

/-- In doubles, and in real numbers whose products are not rounded. -/
theorem resample_threeHalves :
    (Places.value (1.5 : Float) = some ↑(3 / 2 : ℝ) ∧ Places.FixesBelow Float 4 ∧
      ∃ out, Clip.resample #[1.0, 2.0, 3.0, (4.0 : Float)] 1.5 = .ok out ∧
        out[1]? = some 3.0 ∧ out[2]? = some 0.0) ∧
    ∃ out, @Clip.resample ℝ (Scalar.rounding id) #[1, 2, 3, 4] (3 / 2) = .ok out ∧
      out[1]? = some 3 ∧ out[2]? = some (0.0 : ℝ) := by
  constructor
  · have hratio : Places.value (1.5 : Float) = some ↑(3 / 2 : ℝ) := by
      have h : Binary64.ofFloat 1.5 = .finite false (3 * 2 ^ 51) (-52) := by decide +kernel
      show Binary64.value (Binary64.ofFloat 1.5) = _
      rw [h, Binary64.value_positive]
      norm_num
    have hsize : Places.FixesBelow Float #[1.0, 2.0, 3.0, (4.0 : Float)].size :=
      Binary64.fixesBelow (show 4 ≤ 2 ^ 53 + 1 by norm_num)
    have hthree := (hsize 3 (by norm_num)).2
    rw [Nat.cast_ofNat] at hthree
    have hsingle : Clip.IsSingle #[1.0, 2.0, 3.0, (4.0 : Float)] := by
      refine ⟨fun x hx => ?_, by decide +kernel⟩
      simp only [List.mem_toArray, List.mem_cons, List.not_mem_nil, or_false] at hx
      rcases hx with rfl | rfl | rfl | rfl <;> decide +kernel
    obtain ⟨out, -, hout, hreading, -⟩ := Clip.resample_nearest hratio (by norm_num) hsize
    exact ⟨hratio, hsize, out, hout hsingle,
      hreading.at_threeHalves rfl (Binary64.nearest_of_value hratio) hthree⟩
  · let := Scalar.rounding id
    let := Places.rounding monotone_id
    have hsize : Places.FixesBelow ℝ #[1, 2, 3, (4 : ℝ)].size :=
      Places.fixesBelow_rounding monotone_id fun _ _ => rfl
    obtain ⟨out, -, hout, hreading, -⟩ :=
      Clip.resample_nearest (r := 3 / 2) rfl (by norm_num) hsize
    exact ⟨out, hout ⟨fun _ _ => rfl, rfl⟩, hreading.at_threeHalves rfl rfl rfl⟩

end Orchestrion
