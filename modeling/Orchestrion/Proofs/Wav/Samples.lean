import Orchestrion.Wav.Writer
import Orchestrion.Wav.Reader
import Orchestrion.Proofs.Binary64.Single

set_option autoImplicit false

/-!
# Samples and their bytes

A sample of 16 bits comes back from its two bytes, and the number that it has in a clip is
its 32768th part, which needs no rounding in single precision.  So samples are told both
from their bytes and from their numbers.
-/

namespace Orchestrion

/-! ## Numbers in bytes -/

namespace Bytes

@[simp] theorem length_littleEndian (w n : Nat) : (littleEndian w n).length = w := by
  induction w generalizing n with
  | zero => rfl
  | succ w ih => rw [littleEndian, List.length_cons, ih]

theorem ofLittleEndian_littleEndian (w n : Nat) :
    ofLittleEndian (littleEndian w n) = n % 256 ^ w := by
  induction w generalizing n with
  | zero => rw [pow_zero, Nat.mod_one, littleEndian, ofLittleEndian]
  | succ w ih =>
    have hdigit : (UInt8.ofNat (n % 256)).toNat = n % 256 := by
      rw [UInt8.toNat_ofNat']
      omega
    rw [littleEndian, ofLittleEndian, ih, hdigit, pow_succ', Nat.mod_mul]

@[simp] theorem length_ofSigned (w : Nat) (n : Int) : (ofSigned w n).length = w :=
  length_littleEndian w _

/-- An integer in the range of two's complement comes back from its bytes. -/
theorem signed_ofSigned {w : Nat} {n : Int} (hlow : -(256 ^ w : Int) ≤ 2 * n)
    (hhigh : 2 * n < 256 ^ w) : signed w (ofLittleEndian (ofSigned w n)) = n := by
  have hpow : ((Nat.pow 256 w : Nat) : Int) = 256 ^ w := by exact_mod_cast rfl
  have hpos : (0 : Int) < 256 ^ w := by positivity
  have hmod : (n % (256 : Int) ^ w).toNat % 256 ^ w = (n % (256 : Int) ^ w).toNat := by
    refine Nat.mod_eq_of_lt ?_
    zify
    rw [Int.toNat_of_nonneg (Int.emod_nonneg n hpos.ne')]
    exact Int.emod_lt_of_pos n hpos
  rw [ofSigned, ofLittleEndian_littleEndian, hpow, hmod, signed]
  rcases le_or_gt 0 n with hn | hn
  · have hrest : n % 256 ^ w = n := Int.emod_eq_of_lt hn (by omega)
    rw [hrest, if_pos (by zify; rw [hpow]; omega)]
    omega
  · have hrest : n % 256 ^ w = n + 256 ^ w := by
      rw [← Int.add_emod_right, Int.emod_eq_of_lt (by omega) (by omega)]
    rw [hrest, if_neg (by zify; rw [hpow]; omega), hpow]
    omega

end Bytes

theorem ByteOrder.number_littleEndian {w n : Nat} (h : n < 256 ^ w) :
    number .lowestFirst (Bytes.littleEndian w n) = n := by
  rw [number, arrange, Bytes.ofLittleEndian_littleEndian, Nat.mod_eq_of_lt h]

namespace Wav

/-! ## Samples of 16 bits -/

/-- Whether an integer is a sample of 16 bits. -/
def IsWord (n : Int) : Prop := -32768 ≤ n ∧ n ≤ 32767

instance (n : Int) : Decidable (IsWord n) := inferInstanceAs (Decidable (_ ∧ _))

/-- The number that a sample has in a clip. -/
def clipValue (n : Int) : Float := (Encoding.ofInteger sampleSize n).single.toFloat

section

variable {n : Int}

theorem integerOf_ofSigned (h : IsWord n) :
    Encoding.integerOf (Bytes.ofSigned sampleSize n) = n := by
  obtain ⟨hlow, hhigh⟩ := h
  have hsigned : Encoding.integerOf (Bytes.ofSigned sampleSize n) =
      Bytes.signed sampleSize (Bytes.ofLittleEndian (Bytes.ofSigned sampleSize n)) := rfl
  have hrange : (256 : Int) ^ sampleSize = 65536 := rfl
  rw [hsigned, Bytes.signed_ofSigned (by omega) (by omega)]

theorem IsWord.natAbs_lt (h : IsWord n) : n.natAbs < 2 ^ 24 := by
  obtain ⟨hlow, hhigh⟩ := h
  omega

theorem IsWord.log2_lt (h : IsWord n) : n.natAbs.log2 < 24 :=
  Binary64.log2_lt_of_lt (by norm_num) h.natAbs_lt

/-- A sample has few digits, so it is not rounded. -/
theorem clipValue_eq (h : IsWord n) :
    clipValue n = Binary64.encode (n < 0) n.natAbs (-15) := by
  have hlog := h.log2_lt
  have hinteger : Encoding.ofInteger sampleSize n = .finite (n < 0) n.natAbs (-15) := rfl
  rw [clipValue, hinteger, Binary64.single_of_digits _ h.natAbs_lt (by omega) (by omega),
    Binary64.toFloat]

theorem single_clipValue (h : IsWord n) : Scalar.single (clipValue n) = clipValue n := by
  have hlog := h.log2_lt
  rw [clipValue_eq h, Binary64.single_encode _ h.natAbs_lt (by omega) (by omega)]

theorem value_clipValue (h : IsWord n) :
    Binary64.value (Binary64.ofFloat (clipValue n)) = some ↑((n : ℝ) / 32768) := by
  have hlog := h.log2_lt
  have hsigned : Binary64.signed (n < 0) n.natAbs = n := by
    rw [Binary64.signed]
    split
    case isTrue hneg =>
      have := of_decide_eq_true hneg
      omega
    case isFalse hneg =>
      have := mt decide_eq_true hneg
      omega
  have hscale : (2 : ℝ) ^ (-15 : ℤ) = 1 / 32768 := by norm_num
  rw [clipValue_eq h, Binary64.value_encode _ (h.natAbs_lt.trans (by norm_num)) (by omega)
    (by omega), hsigned, hscale, mul_one_div]

theorem clipValue_inj {n' : Int} (h : IsWord n) (h' : IsWord n')
    (heq : clipValue n = clipValue n') : n = n' := by
  have hvalue := value_clipValue h
  rw [heq, value_clipValue h', Option.some_inj, EReal.coe_eq_coe_iff] at hvalue
  have hcast : (n : ℝ) = n' := by linarith
  exact_mod_cast hcast

end

/-! ## Rows of samples -/

theorem sampleBytes_cons (n : Int) (rest : List Int) :
    sampleBytes (n :: rest) = Bytes.ofSigned sampleSize n ++ sampleBytes rest := rfl

@[simp] theorem length_sampleBytes (samples : List Int) :
    (sampleBytes samples).length = 2 * samples.length := by
  induction samples with
  | nil => rfl
  | cons n rest ih =>
    rw [sampleBytes_cons, List.length_append, ih, Bytes.length_ofSigned, List.length_cons,
      sampleSize]
    omega

theorem take_sampleBytes (k : Nat) (samples : List Int) :
    (sampleBytes samples).take (2 * k) = sampleBytes (samples.take k) := by
  induction k generalizing samples with
  | zero =>
    rw [List.take_zero]
    rfl
  | succ k ih =>
    cases samples with
    | nil =>
      rw [List.take_nil]
      rfl
    | cons n rest =>
      have hlength : 2 * (k + 1) = (Bytes.ofSigned sampleSize n).length + 2 * k := by
        rw [Bytes.length_ofSigned, sampleSize]
        omega
      rw [List.take_succ_cons, sampleBytes_cons, sampleBytes_cons, hlength,
        List.take_length_add_append, ih]

/-- The samples of a row of bytes come back one by one. -/
theorem samplesFrom_sampleBytes (found : List Float) {samples : List Int}
    (h : ∀ n ∈ samples, IsWord n) :
    samplesFrom (.integer sampleSize) .lowestFirst found samples.length (sampleBytes samples) =
      found.reverse ++ samples.map clipValue := by
  induction samples generalizing found with
  | nil => rw [List.length_nil, samplesFrom, List.map_nil, List.append_nil]
  | cons n rest ih =>
    obtain ⟨hn, hrest⟩ := List.forall_mem_cons.mp h
    have hwidth : (Encoding.integer sampleSize).width = (Bytes.ofSigned sampleSize n).length :=
      (Bytes.length_ofSigned _ _).symm
    have hvalue : ((Encoding.integer sampleSize).value (ByteOrder.arrange .lowestFirst
        (Bytes.ofSigned sampleSize n))).toFloat = clipValue n := by
      rw [Encoding.value, ByteOrder.arrange, integerOf_ofSigned hn, clipValue]
    rw [List.length_cons, samplesFrom, sampleBytes_cons, hwidth, List.take_left, List.drop_left,
      hvalue, ih _ hrest, List.reverse_cons, List.append_assoc, List.map_cons]
    rfl

section

variable {samples samples' : List Int} (h : ∀ n ∈ samples, IsWord n)
  (h' : ∀ n ∈ samples', IsWord n)

include h h'

theorem map_clipValue_inj (heq : samples.map clipValue = samples'.map clipValue) :
    samples = samples' := by
  induction samples generalizing samples' with
  | nil => exact (List.map_eq_nil_iff.mp heq.symm).symm
  | cons n rest ih =>
    cases samples' with
    | nil => cases heq
    | cons n' rest' =>
      obtain ⟨hn, hrest⟩ := List.forall_mem_cons.mp h
      obtain ⟨hn', hrest'⟩ := List.forall_mem_cons.mp h'
      obtain ⟨hhead, htail⟩ := List.cons.inj heq
      rw [clipValue_inj hn hn' hhead, ih hrest hrest' htail]

theorem sampleBytes_inj (heq : sampleBytes samples = sampleBytes samples') :
    samples = samples' := by
  have hlength := congrArg List.length heq
  rw [length_sampleBytes, length_sampleBytes] at hlength
  have hclip := samplesFrom_sampleBytes [] h
  rw [heq, Nat.eq_of_mul_eq_mul_left two_pos hlength, samplesFrom_sampleBytes [] h'] at hclip
  exact map_clipValue_inj h h' hclip.symm

end

end Wav

end Orchestrion
