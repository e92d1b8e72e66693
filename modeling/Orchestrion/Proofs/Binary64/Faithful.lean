import Orchestrion.Proofs.Binary64.Arithmetic
import Orchestrion.Proofs.Binary64.Encoding
import Orchestrion.Proofs.Scalar.Faithful

set_option autoImplicit false

/-!
# Doubles round faithfully

The arithmetic of doubles, as it runs, has the laws of an arithmetic that rounds
faithfully.  So what is shown from these laws holds of every signal that is computed.
-/

namespace Orchestrion

namespace Binary64

open Float.Model (UnpackedFloat Format)
open Float.Model.UnpackedFloat

theorem isCanonical_toModel (x : Float) : IsCanonical x.toModel.unpack :=
  isCanonical_unpack x.toBits.toBitVec

/-! ## Comparisons -/

/-- What is said of an ordering is said of the values. -/
theorem compare_iff {p : Ordering → Prop} {R : EReal → EReal → Prop} (x y : Float)
    (h : ∀ {o a b}, Ordering.Compares o a b → (p o ↔ R a b)) :
    (∃ o, x.toModel.unpack.compare y.toModel.unpack = some o ∧ p o) ↔
      ∃ a b, value (ofFloat x) = some a ∧ value (ofFloat y) = some b ∧ R a b := by
  simp only [value_ofFloat]
  constructor
  · rintro ⟨o, ho, hp⟩
    obtain ⟨⟨a, ha⟩, b, hb⟩ := isSome_of_compare ho
    obtain ⟨o', ho', hcompares⟩ :=
      compares_values (isCanonical_toModel x) (isCanonical_toModel y) ha hb
    obtain rfl : o = o' := Option.some.inj (ho.symm.trans ho')
    exact ⟨a, b, ha, hb, (h hcompares).mp hp⟩
  · rintro ⟨a, b, ha, hb, hR⟩
    obtain ⟨o, ho, hcompares⟩ :=
      compares_values (isCanonical_toModel x) (isCanonical_toModel y) ha hb
    exact ⟨o, ho, (h hcompares).mpr hR⟩

theorem lt_iff (x y : Float) : x < y ↔
    ∃ a b, value (ofFloat x) = some a ∧ value (ofFloat y) = some b ∧ a < b := by
  rw [← compare_iff (p := (· = .lt)) x y Ordering.Compares.eq_lt]
  show decide (UnpackedFloat.lt x.toModel.unpack y.toModel.unpack = true) = true ↔ _
  simp [UnpackedFloat.lt]

theorem le_iff (x y : Float) : x ≤ y ↔
    ∃ a b, value (ofFloat x) = some a ∧ value (ofFloat y) = some b ∧ a ≤ b := by
  rw [← compare_iff (p := (· ≠ .gt)) x y Ordering.Compares.ne_gt]
  show decide (UnpackedFloat.le x.toModel.unpack y.toModel.unpack = true) = true ↔ _
  simp [UnpackedFloat.le, Option.any_eq_true, Ordering.isLE_iff_ne_gt]

theorem beq_iff (x y : Float) : (x == y) = true ↔
    ∃ a b, value (ofFloat x) = some a ∧ value (ofFloat y) = some b ∧ a = b := by
  rw [← compare_iff (p := (· = .eq)) x y Ordering.Compares.eq_eq]
  show UnpackedFloat.beq x.toModel.unpack y.toModel.unpack = true ↔ _
  simp [UnpackedFloat.beq]

/-! ## Operations -/

theorem value_neg (x : Float) : value (ofFloat (-x)) = (value (ofFloat x)).map fun a => -a := by
  have hcanonical := isCanonical_neg (isCanonical_toModel x)
  rw [value_ofFloat, value_ofFloat, ← valueOf_neg, ← repacked_of_isCanonical hcanonical]
  rfl

theorem value_abs (x : Float) :
    value (ofFloat x.abs) = (value (ofFloat x)).map fun a => a ⊔ -a := by
  have hcanonical := isCanonical_abs (isCanonical_toModel x)
  rw [value_ofFloat, value_ofFloat, ← valueOf_abs, ← repacked_of_isCanonical hcanonical]
  rfl

theorem exists_value_add {x y : Float} {a : ℝ} {b : EReal} (hx : value (ofFloat x) = some ↑a)
    (hy : value (ofFloat y) = some b) : ∃ c, value (ofFloat (x + y)) = some c := by
  rw [value_ofFloat] at hx hy ⊢
  exact exists_add hx hy

/-- No double is between a number and the double that it is rounded to. -/
theorem IsFaithful.between {r : ℝ} {c : EReal} (h : IsFaithful r c) (z : Float) (d : EReal)
    (hz : value (ofFloat z) = some d) : (↑r ≤ d → c ≤ d) ∧ (d ≤ ↑r → d ≤ c) := by
  rw [value_ofFloat] at hz
  exact h _ d (isCanonical_toModel z) hz

theorem exists_value_mul {x y : Float} {a b : ℝ} (hx : value (ofFloat x) = some ↑a)
    (hy : value (ofFloat y) = some ↑b) :
    ∃ c, value (ofFloat (x * y)) = some c ∧ IsFaithful (a * b) c := by
  rw [value_ofFloat] at hx hy ⊢
  exact exists_mul (isCanonical_toModel x) (isCanonical_toModel y) hx hy

theorem exists_value_div {x y : Float} {a b : ℝ} (hx : value (ofFloat x) = some ↑a)
    (hy : value (ofFloat y) = some ↑b) (hb : b ≠ 0) :
    ∃ c, value (ofFloat (x / y)) = some c ∧ IsFaithful (a / b) c := by
  rw [value_ofFloat] at hx hy ⊢
  exact exists_div hx hy hb

theorem exists_value_single {x : Float} {a : EReal} (hx : value (ofFloat x) = some a) :
    ∃ b, value (ofFloat (single (ofFloat x)).toFloat) = some b := by
  have hne : ofFloat x ≠ .nan := by
    intro h
    rw [h] at hx
    cases hx
  rw [value_ofFloat]
  exact exists_valueOf_toFloat (single_ne_nan hne)

/-! ## Integers -/

/-- A rounding to integers that is done on the digits of a number. -/
theorem scaledBy_eq {f : ℝ → ℤ} {divide : Int → Int → Int} (hint : ∀ n : ℤ, f n = n)
    (hdiv : ∀ (n : ℤ) (d : ℕ), 0 < d → f ((n : ℝ) / d) = divide n d) (n e : Int) :
    f ((n : ℝ) * 2 ^ e) = scaledBy divide n e := by
  rw [scaledBy]
  split
  case isTrue he =>
    obtain ⟨k, rfl⟩ := Int.eq_ofNat_of_zero_le he
    have hproduct : (n : ℝ) * 2 ^ (k : Int) = ((n * Nat.pow 2 k : Int) : ℝ) := by
      have hpow : Nat.pow 2 k = 2 ^ k := rfl
      rw [zpow_natCast, hpow]
      push_cast
      rfl
    rw [hproduct, hint, Int.toNat_natCast]
  case isFalse he =>
    obtain ⟨k, rfl⟩ : ∃ k : Nat, e = -k := ⟨(-e).toNat, by omega⟩
    have hquotient : (n : ℝ) * 2 ^ (-k : Int) = n / (Nat.pow 2 k : Nat) := by
      have hpow : Nat.pow 2 k = 2 ^ k := rfl
      rw [zpow_neg, zpow_natCast, div_eq_mul_inv, hpow]
      push_cast
      rfl
    rw [hquotient, hdiv n (Nat.pow 2 k) (Nat.two_pow_pos k), neg_neg, Int.toNat_natCast]

theorem toInteger_eq {f : ℝ → ℤ} {divide : Int → Int → Int} {x : Float} {a : ℝ}
    (hf : ∀ n e : Int, f ((n : ℝ) * 2 ^ e) = scaledBy divide n e)
    (hx : value (ofFloat x) = some ↑a) : toInteger divide x = .ok (f a) := by
  rw [toInteger]
  cases h : ofFloat x with
  | nan =>
    rw [h] at hx
    cases hx
  | infinite negative =>
    rw [h] at hx
    cases negative
    case false => exact absurd (Option.some.inj hx).symm (EReal.coe_ne_top a)
    case true => exact absurd (Option.some.inj hx).symm (EReal.coe_ne_bot a)
  | finite negative m e =>
    rw [h] at hx
    have ha : ((signed negative m : ℝ) * 2 ^ e : ℝ) = a := by
      exact_mod_cast Option.some.inj hx
    rw [← ha, hf]

theorem toInteger_tdiv {x : Float} {a : ℝ} (hx : value (ofFloat x) = some ↑a) :
    toInteger Int.tdiv x = .ok (Scalar.towardZero a) :=
  toInteger_eq (scaledBy_eq Scalar.towardZero_intCast fun n d _ => Scalar.towardZero_div n d) hx

/-- Only a finite number has an integer next to it. -/
theorem exists_of_toInteger {divide : Int → Int → Int} {x : Float} {n : Int}
    (h : toInteger divide x = .ok n) : ∃ a : ℝ, value (ofFloat x) = some ↑a := by
  rw [toInteger] at h
  split at h
  · cases h
  · cases h
  · rename_i hx
    rw [hx]
    exact ⟨_, rfl⟩

theorem toInteger_tdiv_eq_ok_iff {x : Float} {n : Int} : toInteger Int.tdiv x = .ok n ↔
    ∃ a : ℝ, value (ofFloat x) = some ↑a ∧ n = Scalar.towardZero a := by
  constructor
  · intro h
    obtain ⟨a, ha⟩ := exists_of_toInteger h
    rw [toInteger_tdiv ha] at h
    cases h
    exact ⟨a, ha, rfl⟩
  · rintro ⟨a, ha, rfl⟩
    exact toInteger_tdiv ha

end Binary64

open Binary64 in
/-- The arithmetic that runs rounds faithfully. -/
noncomputable instance : Scalar.Faithful Float where
  value x := value (ofFloat x)
  lt_iff x y := decide_eq_true_iff.trans (lt_iff x y)
  le_iff x y := decide_eq_true_iff.trans (le_iff x y)
  eq_iff x y := beq_iff x y
  value_zero := by
    have h : ofFloat 0.0 = .finite false 0 (-1074) := by decide +kernel
    rw [h, value_positive]
    norm_num
  value_one := by
    have h : ofFloat 1.0 = .finite false (2 ^ 52) (-52) := by decide +kernel
    rw [h, value_positive]
    norm_num
  value_maxSample := by
    have h : ofFloat 32767.0 = .finite false (32767 * 2 ^ 38) (-38) := by decide +kernel
    rw [h, value_positive]
    norm_num
  value_singleMax := by
    have h : ofFloat Scalar.singleMax = .finite false ((2 ^ 24 - 1) * 2 ^ 29) 75 := by
      decide +kernel
    rw [h, value_positive, Scalar.singleLimit]
    norm_num
  value_neg x := value_neg x
  value_abs x := value_abs x
  value_add x y a b hx hy := exists_value_add hx hy
  value_single x a hx := exists_value_single hx
  value_mul x y a b hx hy := by
    obtain ⟨c, hc, hfaithful⟩ := exists_value_mul hx hy
    exact ⟨c, hc, hfaithful.between⟩
  value_div x y a b hx hy hb := by
    obtain ⟨c, hc, hfaithful⟩ := exists_value_div hx hy hb
    exact ⟨c, hc, hfaithful.between⟩
  truncate_eq x a hx := toInteger_tdiv hx

end Orchestrion
