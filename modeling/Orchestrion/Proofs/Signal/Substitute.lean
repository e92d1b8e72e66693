import Orchestrion.Signal.Bank
import Mathlib.Algebra.Order.Group.Abs
import Mathlib.Algebra.Order.Group.Int
import Mathlib.Algebra.Order.Group.Unbundled.Int

set_option autoImplicit false

/-!
# The substitute of a pitch

A pitch without a clip is played from the clip of another one.  The neighbours of a
pitch are listed by their distance, the higher one of two at the same distance first, and
none of them twice (`Pitch.pairwise_around`).  What is found first in a list in some order
is the least in that order, so the substitute is the nearest of all pitches that have a
clip.
-/

namespace Orchestrion

/-! ## Neighbours in order -/

namespace Pitch

/-- Whether the first of two pitches is nearer to a pitch than the second: it has a
smaller distance, or the same one and is higher. -/
def Nearer (pitch p q : Int) : Prop :=
  |p - pitch| < |q - pitch| ∨ (|p - pitch| = |q - pitch| ∧ q < p)

theorem Nearer.asymm {pitch p q : Int} (h : Nearer pitch p q) : ¬Nearer pitch q p := by
  unfold Nearer at h ⊢
  omega

theorem isValid_iff {p : Int} : isValid p = true ↔ 0 ≤ p ∧ p ≤ 127 := by
  rw [isValid, Bool.and_eq_true, decide_eq_true_eq, decide_eq_true_eq]

theorem mem_atDistance {pitch p : Int} {distance : Nat} :
    p ∈ atDistance pitch distance ↔ |p - pitch| = distance := by
  rw [atDistance, List.mem_cons, List.mem_singleton, abs_eq (Int.natCast_nonneg distance)]
  omega

/-- The neighbours of a pitch. -/
theorem mem_around {pitch limit p : Int} :
    p ∈ around pitch limit ↔ (0 ≤ p ∧ p ≤ 127) ∧ 1 ≤ |p - pitch| ∧ |p - pitch| ≤ limit := by
  simp only [around, List.mem_flatMap, List.mem_range, List.mem_filter, mem_atDistance, isValid_iff]
  constructor
  · rintro ⟨d, hd, hdistance, hvalid⟩
    exact ⟨hvalid, by omega, by omega⟩
  · rintro ⟨hvalid, hlow, hhigh⟩
    exact ⟨(|p - pitch| - 1).toNat, by omega, by omega, hvalid⟩

/-- The neighbours of a pitch come one after the other in the order of their nearness. -/
theorem pairwise_around (pitch limit : Int) : (around pitch limit).Pairwise (Nearer pitch) := by
  refine List.pairwise_flatMap.mpr ⟨?_, ?_⟩
  · -- the two pitches at one distance
    intro d _
    apply List.Pairwise.filter
    refine List.pairwise_pair.mpr (.inr ⟨?_, by omega⟩)
    rw [add_sub_cancel_left, sub_sub_cancel_left, abs_neg]
  · apply List.pairwise_lt_range.imp
    intro d d' hlt p hp q hq
    have hp' := mem_atDistance.mp (List.mem_filter.mp hp).1
    have hq' := mem_atDistance.mp (List.mem_filter.mp hq).1
    exact .inl (by omega)

theorem nodup_around (pitch limit : Int) : (around pitch limit).Nodup := by
  apply (pairwise_around pitch limit).imp
  rintro p _ hnearer rfl
  exact hnearer.asymm hnearer

end Pitch

/-! ## The first of a list in order -/

/-- The first element with a property is the least one, if the list is in order. -/
theorem find?_eq_some_iff_of_pairwise {α : Type} {R : α → α → Prop}
    (hasymm : ∀ x y, R x y → ¬R y x) {l : List α} (hl : l.Pairwise R) {p : α → Bool} {x : α} :
    l.find? p = some x ↔ (x ∈ l ∧ p x = true) ∧ ∀ y ∈ l, p y = true → y = x ∨ R x y := by
  have hfirst {z : α} (h : l.find? p = some z) : ∀ y ∈ l, p y = true → y = z ∨ R z y := by
    obtain ⟨_, front, rest, rfl, hfront⟩ := List.find?_eq_some_iff_append.mp h
    intro y hy hpy
    rcases List.mem_append.mp hy with hmem | hmem
    · have hnot := hfront y hmem
      rw [hpy] at hnot
      cases hnot
    · have hrest := (List.pairwise_cons.mp (List.pairwise_append.mp hl).2.1).1
      exact (List.mem_cons.mp hmem).imp_right (hrest y)
  constructor
  · intro h
    exact ⟨⟨List.mem_of_find?_eq_some h, List.find?_some h⟩, hfirst h⟩
  · rintro ⟨⟨hx, hpx⟩, hleast⟩
    obtain ⟨z, hz⟩ := Option.isSome_iff_exists.mp (List.find?_isSome.mpr ⟨x, hx, hpx⟩)
    rcases hfirst hz x hx hpx with rfl | hzx
    · exact hz
    · rcases hleast z (List.mem_of_find?_eq_some hz) (List.find?_some hz) with rfl | hxz
      · exact hz
      · exact absurd hzx (hasymm x z hxz)

/-! ## The substitute -/

namespace Bank

variable {α : Type}

/-- A pitch that may stand for another: it has a clip, is one that instruments have, and is
not farther away than a search goes. -/
structure IsSubstitute (b : Bank α) (pitch p : Int) : Prop where
  hasFile : b.file? p ≠ none
  nonneg : 0 ≤ p
  le : p ≤ 127
  ne : p ≠ pitch
  near : |p - pitch| ≤ Pitch.maxDistance

theorem isSubstitute_iff {b : Bank α} {pitch p : Int} : b.IsSubstitute pitch p ↔
    p ∈ Pitch.around pitch Pitch.maxDistance ∧ (b.file? p).isSome = true := by
  rw [Pitch.mem_around, Option.isSome_iff_ne_none]
  constructor
  · intro h
    have hne : p - pitch ≠ 0 := sub_ne_zero.mpr h.ne
    exact ⟨⟨⟨h.nonneg, h.le⟩, Int.one_le_abs hne, h.near⟩, h.hasFile⟩
  · rintro ⟨⟨⟨hnonneg, hle⟩, hpos, hnear⟩, hfile⟩
    refine ⟨hfile, hnonneg, hle, ?_, hnear⟩
    rintro rfl
    rw [sub_self, abs_zero] at hpos
    omega

theorem map_firstWithFile (b : Bank α) (ps : List Int) :
    (b.firstWithFile ps).map Prod.fst = ps.find? fun p => (b.file? p).isSome := by
  induction ps with
  | nil => rfl
  | cons p rest ih =>
    rw [firstWithFile, List.find?_cons]
    cases b.file? p with
    | none => exact ih
    | some path => rfl

theorem nearest_eq_find? (b : Bank α) (pitch : Int) : b.nearest pitch =
    (Pitch.around pitch Pitch.maxDistance).find? fun p => (b.file? p).isSome :=
  b.map_firstWithFile _

theorem nearest_eq_none_iff {b : Bank α} {pitch : Int} :
    b.nearest pitch = none ↔ ∀ p, ¬b.IsSubstitute pitch p := by
  rw [nearest_eq_find?, List.find?_eq_none]
  simp only [isSubstitute_iff, not_and]

/-- What is found is the nearest, and of two as near the higher one. -/
theorem nearest_eq_some_iff {b : Bank α} {pitch q : Int} :
    b.nearest pitch = some q ↔ b.IsSubstitute pitch q ∧
      ∀ p, b.IsSubstitute pitch p →
        |q - pitch| ≤ |p - pitch| ∧ (|q - pitch| = |p - pitch| → p ≤ q) := by
  rw [nearest_eq_find?, find?_eq_some_iff_of_pairwise (fun _ _ => Pitch.Nearer.asymm)
    (Pitch.pairwise_around pitch Pitch.maxDistance), ← isSubstitute_iff]
  apply and_congr_right
  intro _
  constructor
  · intro h p hp
    obtain ⟨hmem, hfile⟩ := isSubstitute_iff.mp hp
    rcases h p hmem hfile with rfl | hcloser | ⟨hdistance, hlower⟩
    · exact ⟨le_rfl, fun _ => le_rfl⟩
    · exact ⟨hcloser.le, fun heq => absurd heq hcloser.ne⟩
    · exact ⟨hdistance.le, fun _ => hlower.le⟩
  · intro h p hmem hfile
    obtain ⟨hle, htie⟩ := h p (isSubstitute_iff.mpr ⟨hmem, hfile⟩)
    unfold Pitch.Nearer
    omega

/-- From a pitch of instruments a search goes as far as to all of them. -/
theorem nearest_eq_none_iff_of_valid {b : Bank α} {pitch : Int} (h : 0 ≤ pitch ∧ pitch ≤ 127) :
    b.nearest pitch = none ↔ ∀ p, 0 ≤ p ∧ p ≤ 127 → p ≠ pitch → b.file? p = none := by
  rw [nearest_eq_none_iff]
  apply forall_congr'
  intro p
  constructor
  · intro hnone hvalid hne
    by_contra hfile
    have hnear : |p - pitch| ≤ Pitch.maxDistance := by
      rw [Pitch.maxDistance, abs_le]
      omega
    exact hnone ⟨hfile, hvalid.1, hvalid.2, hne, hnear⟩
  · intro hnone hsubstitute
    exact hsubstitute.hasFile (hnone ⟨hsubstitute.nonneg, hsubstitute.le⟩ hsubstitute.ne)

/-- **The nearest clip.**  The neighbours of a pitch are the pitches of instruments up to
some distance, each once, the nearest first and of two as near the higher one.  The
substitute of a pitch is the nearest of all that have a clip, the higher one of two; there
is none only where no pitch may stand for it, and for a pitch of instruments that is where
no other one has a clip. -/
theorem nearest_optimal (b : Bank α) (pitch : Int) :
    (∀ limit, (Pitch.around pitch limit).Nodup ∧
      (∀ p, p ∈ Pitch.around pitch limit ↔
        (0 ≤ p ∧ p ≤ 127) ∧ 1 ≤ |p - pitch| ∧ |p - pitch| ≤ limit) ∧
      (Pitch.around pitch limit).Pairwise fun p q =>
        |p - pitch| < |q - pitch| ∨ (|p - pitch| = |q - pitch| ∧ q < p)) ∧
    (∀ q, b.nearest pitch = some q ↔ b.IsSubstitute pitch q ∧
      ∀ p, b.IsSubstitute pitch p →
        |q - pitch| ≤ |p - pitch| ∧ (|q - pitch| = |p - pitch| → p ≤ q)) ∧
    (b.nearest pitch = none ↔ ∀ p, ¬b.IsSubstitute pitch p) ∧
    (0 ≤ pitch ∧ pitch ≤ 127 → (b.nearest pitch = none ↔
      ∀ p, 0 ≤ p ∧ p ≤ 127 → p ≠ pitch → b.file? p = none)) := by
  refine ⟨?_, fun q => nearest_eq_some_iff, nearest_eq_none_iff, nearest_eq_none_iff_of_valid⟩
  intro limit
  exact ⟨Pitch.nodup_around pitch limit, fun p => Pitch.mem_around,
    Pitch.pairwise_around pitch limit⟩

/-- A bank with two clips around a pitch and one of a pitch that no instrument has. -/
def around60 : Bank Unit where
  name := .text "b"
  files := [(58, "low"), (200, "far"), (62, "high")]
  cache := .empty none

theorem nearest_around60 :
    ((0 : Int) ≤ 60 ∧ (60 : Int) ≤ 127) ∧ around60.nearest 60 = some 62 ∧
      ¬∀ p, 0 ≤ p ∧ p ≤ 127 → p ≠ 60 → around60.file? p = none := by
  have hvalid : (0 : Int) ≤ 60 ∧ (60 : Int) ≤ 127 := by decide
  have hfound : around60.nearest 60 = some 62 := by decide
  obtain ⟨-, -, -, hnone⟩ := nearest_optimal around60 60
  refine ⟨hvalid, hfound, ?_⟩
  intro hall
  rw [(hnone hvalid).mpr hall] at hfound
  cases hfound

end Bank

end Orchestrion
