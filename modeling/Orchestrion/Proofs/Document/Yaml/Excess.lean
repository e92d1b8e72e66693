import Orchestrion.Document.Yaml.Quotation
import Orchestrion.Document.Yaml.Scalar
import Orchestrion.Proofs.Document.Yaml.Date
import Orchestrion.Proofs.Scalar.Counting

set_option autoImplicit false

/-!
# Words that go too far

A word of a YAML text may be written as a number, a date or an escape is, and stand for nothing
all the same: an integer has more digits than an integer may have, or none, a number in base
sixty has so many parts that no double weighs the first one, there is no such day, time or
distance of a time zone, or an escape has a number that is no character's.  No other plain text
stands for nothing, but for those that no document holds.
-/

namespace Orchestrion.Document.Yaml

variable {s word rest : List Char} {fault : Fault} {c : Char}

/-- The most parts of a number in base sixty for which every part can be weighed. -/
def maxParts : Nat := 174

/-- A number or a date that goes too far, and the fault that it is. -/
inductive Excess : List Char → Fault → Prop where
  /-- too many digits for an integer -/
  | digits (word : List Char) (hword : ∀ c ∈ word, isDigitBelow 10 c = true)
      (h : Decimal.maxIntegerDigits < (withoutUnderscores word).length) : Excess word .outOfRange
  /-- no digits after the mark of a base, but something in their place -/
  | base (mark : Char) (word : List Char) (hmark : mark = 'b' ∨ mark = 'x') (hword : word ≠ [])
      (h : ∀ c ∈ word, c = '_') : Excess ('0' :: mark :: word) .outOfRange
  /-- too many parts in base sixty -/
  | parts (word : List Char) (hword : ∀ c ∈ word, isDigitBelow 10 c = true ∨ c = ':')
      (h : maxParts < (partsFrom [] word).length) : Excess word .tooLarge
  /-- a day that there is not -/
  | day (d : Day) (hd : d.IsWritten) (h : d.exists = false) : Excess d.text .outOfRange
  /-- a time that there is not -/
  | time (t : Time) (ht : t.IsWritten) (h : t.exists = false) : Excess t.text .outOfRange
  /-- a distance of a time zone that there is not -/
  | zone (z : Zone) (hz : z.IsWritten) (h : z.exists = false) : Excess z.text .outOfRange

/-- Digits of a character's number that goes too far, and the fault that it is. -/
inductive FarCode (digits : List Char) : Fault → Prop where
  /-- a number beyond that of the last character -/
  | outOfRange (hlength : digits.length = 8)
      (hdigits : ∀ c ∈ digits, (Json.hexValue? c).isSome = true)
      (h : 0x110000 ≤ ofBase 16 digits) (hnumber : ofBase 16 digits < 0x80000000) :
      FarCode digits .outOfRange
  /-- a number beyond those that are looked at -/
  | tooLarge (hlength : digits.length = 8)
      (hdigits : ∀ c ∈ digits, (Json.hexValue? c).isSome = true)
      (h : 0x80000000 ≤ ofBase 16 digits) : FarCode digits .tooLarge

/-- A text in which a number, a date or an escape goes too far. -/
inductive Exceeds (s : List Char) (fault : Fault) : Prop where
  | word (word : List Char) (hword : EndsIn word s) (h : Excess word fault) : Exceeds s fault
  | escape (digits : List Char) (hdigits : '\\' :: 'U' :: digits <:+: s) (h : FarCode digits fault) :
      Exceeds s fault

/-- What is read from a text: something as it is required, or the fault of a text that is not
written as a document is, or that of a word that goes too far. -/
inductive Yields {β : Type} (source : List Char) (Q : β → Prop) : Except Fault β → Prop where
  | ok {b : β} (h : Q b) : Yields source Q (.ok b)
  | malformed : Yields source Q (.error .malformed)
  | exceeds {fault : Fault} (h : Exceeds source fault) : Yields source Q (.error fault)

namespace Yields

variable {β γ : Type} {source : List Char} {Q : β → Prop} {R : γ → Prop} {r : Except Fault β}

theorem imp {Q' : β → Prop} (h : Yields source Q r) (hQ : ∀ b, Q b → Q' b) :
    Yields source Q' r := by
  cases h with
  | ok h => exact .ok (hQ _ h)
  | malformed => exact .malformed
  | exceeds h => exact .exceeds h

theorem bind {f : β → Except Fault γ} (h : Yields source Q r)
    (hf : ∀ b, Q b → Yields source R (f b)) : Yields source R (r >>= f) := by
  cases h with
  | ok h => exact hf _ h
  | malformed => exact .malformed
  | exceeds h => exact .exceeds h

theorem of_ok {b : β} (h : Yields source Q (.ok b)) : Q b := by
  cases h with
  | ok h => exact h

/-- A fault goes through where nothing else is made of it. -/
theorem of_error {fault : Fault} (h : Yields source Q (.error fault)) :
    Yields source R (.error fault) := by
  cases h with
  | malformed => exact .malformed
  | exceeds h => exact .exceeds h

end Yields

/-! ## Characters -/

theorem isSpace_cases (h : isSpace c = true) :
    c = ' ' ∨ c = '\t' ∨ c = '\n' ∨ c = '\x85' ∨ c = '\u2028' ∨ c = '\u2029' := by
  simpa [isSpace, isBreak, or_assoc] using h

/-- What holds of no space holds of other characters only. -/
theorem isSpace_eq_false_of {p : Char → Bool} (h : p c = true)
    (hp : [' ', '\t', '\n', '\x85', '\u2028', '\u2029'].any p = false) : isSpace c = false := by
  rw [Bool.eq_false_iff]
  intro hspace
  have hmem : c ∈ [' ', '\t', '\n', '\x85', '\u2028', '\u2029'] := by
    simpa using isSpace_cases hspace
  rw [List.any_eq_true.mpr ⟨c, hmem, h⟩] at hp
  cases hp

theorem isSpace_of_digit (h : isDigitBelow 10 c = true) : isSpace c = false :=
  isSpace_eq_false_of h rfl

theorem AreDigits.not_isSpace {least most : Nat} (h : AreDigits least most s) :
    ∀ c ∈ s, isSpace c = false :=
  fun c hc => isSpace_eq_false_of (h.isDigit c hc) rfl

/-- Words on both sides of a mark are a word. -/
theorem not_isSpace_append_cons {front back : List Char} (hfront : ∀ c ∈ front, isSpace c = false)
    (hc : isSpace c = false) (hback : ∀ c ∈ back, isSpace c = false) :
    ∀ x ∈ front ++ c :: back, isSpace x = false := by
  rw [List.forall_mem_append, List.forall_mem_cons]
  exact ⟨hfront, hc, hback⟩

theorem Day.IsWritten.not_isSpace {d : Day} (h : d.IsWritten) : ∀ c ∈ d.text, isSpace c = false :=
  not_isSpace_append_cons (not_isSpace_append_cons h.1.not_isSpace rfl h.2.1.not_isSpace) rfl
    h.2.2.not_isSpace

theorem Time.IsWritten.not_isSpace {t : Time} (h : t.IsWritten) :
    ∀ c ∈ t.text, isSpace c = false :=
  not_isSpace_append_cons (not_isSpace_append_cons h.1.not_isSpace rfl h.2.1.not_isSpace) rfl
    h.2.2.not_isSpace

theorem Zone.IsWritten.not_isSpace {z : Zone} (h : z.IsWritten) :
    ∀ c ∈ z.text, isSpace c = false := by
  obtain ⟨hsign, hhour, hminute⟩ := h
  have hsign : isSpace z.sign = false := by
    rcases hsign with hsign | hsign <;> rw [hsign] <;> rfl
  unfold Zone.text
  rw [List.cons_append, List.forall_mem_cons, List.forall_mem_append]
  refine ⟨hsign, hhour.not_isSpace, ?_⟩
  cases hz : z.minute with
  | none => exact List.forall_mem_nil _
  | some minute =>
    have hminute := hminute minute hz
    exact not_isSpace_append_cons (List.forall_mem_nil _) rfl hminute.not_isSpace

/-- A word that goes too far has no spaces. -/
theorem Excess.not_isSpace (h : Excess word fault) : ∀ c ∈ word, isSpace c = false := by
  cases h with
  | digits _ hword => exact fun c hc => isSpace_of_digit (hword c hc)
  | base mark word hmark _ h =>
    have hmark : isSpace mark = false := by
      rcases hmark with rfl | rfl <;> rfl
    rw [List.forall_mem_cons, List.forall_mem_cons]
    refine ⟨rfl, hmark, fun c hc => ?_⟩
    rw [h c hc]
    rfl
  | parts _ hword =>
    intro c hc
    rcases hword c hc with hdigit | rfl
    · exact isSpace_of_digit hdigit
    · rfl
  | day d hd => exact hd.not_isSpace
  | time t ht => exact ht.not_isSpace
  | zone z hz => exact hz.not_isSpace

/-! ## Integers -/

theorem excess_of_inTen (hs : ∀ c ∈ s, isDigitBelow 10 c = true)
    (h : inTen (withoutUnderscores s) = .error fault) : Excess s fault := by
  unfold inTen at h
  split at h
  · rename_i hlong
    cases h
    exact .digits s hs hlong
  · cases h

theorem all_underscores_of_inBase {base : Nat} (h : inBase base s = .error fault) :
    fault = .outOfRange ∧ ∀ c ∈ s, c = '_' := by
  unfold inBase at h
  split at h
  · rename_i hnone
    cases h
    refine ⟨rfl, fun c hc => ?_⟩
    by_contra hne
    have hmem : c ∈ withoutUnderscores s := List.mem_filter.mpr ⟨hc, by simpa using hne⟩
    rw [hnone] at hmem
    cases hmem
  · cases h

theorem isDigitBelow_of_isWhole (h : isWhole s = true) : ∀ c ∈ s, isDigitBelow 10 c = true := by
  cases s with
  | nil => exact nofun
  | cons d rest =>
    simp only [isWhole, Bool.and_eq_true, List.all_eq_true] at h
    rw [List.forall_mem_cons]
    exact ⟨h.1.2, h.2⟩

theorem isDigitBelow_ten (h₀ : '0' ≤ c) (h₉ : c ≤ '9') : isDigitBelow 10 c = true := by
  have hvalue : digitValue c < 10 := by
    have hcode : c.toNat ≤ '9'.toNat := h₉
    rw [digitValue, if_pos h₉]
    have hzero : '0'.toNat = 48 := rfl
    have hnine : '9'.toNat = 57 := rfl
    omega
  simp [isDigitBelow, h₀, h₉, hvalue]

theorem isDigitBelow_of_isSixtieth (h : isSixtieth s = true) :
    ∀ c ∈ s, isDigitBelow 10 c = true := by
  unfold isSixtieth at h
  split at h
  · simp only [Bool.and_eq_true, decide_eq_true_eq] at h
    simpa using isDigitBelow_ten h.1 h.2
  · simp only [Bool.and_eq_true, decide_eq_true_eq] at h
    obtain ⟨⟨⟨h₀, h₅⟩, h₀'⟩, h₉⟩ := h
    have h₉' := Char.le_trans h₅ (by decide : '5' ≤ '9')
    simpa using ⟨isDigitBelow_ten h₀ h₉', isDigitBelow_ten h₀' h₉⟩
  · cases h

/-! ### Base sixty -/

/-- A part ends at a colon or with the text. -/
theorem endsIn_of_mem_partsFrom {part : List Char} (h : part ∈ partsFrom word s) :
    EndsIn part (word.reverse ++ s) := by
  induction s generalizing word with
  | nil =>
    obtain rfl := List.mem_singleton.mp h
    rw [List.append_nil]
    exact endsIn_self _
  | cons d rest ih =>
    unfold partsFrom at h
    split at h
    · rename_i hcolon
      rcases List.mem_cons.mp h with rfl | h
      · exact ⟨[], d :: rest, rfl, endsNumber_cons (by rw [hcolon]; rfl) rest⟩
      · exact (ih h).append ⟨word.reverse ++ [d], by simp⟩
    · simpa using ih h

/-- What holds of all characters of the parts holds of all but the colons. -/
theorem forall_of_forall_partsFrom {p : Char → Prop}
    (h : ∀ part ∈ partsFrom word s, ∀ c ∈ part, p c) :
    (∀ c ∈ word, p c) ∧ ∀ c ∈ s, p c ∨ c = ':' := by
  induction s generalizing word with
  | nil => exact ⟨by simpa [partsFrom] using h, nofun⟩
  | cons d rest ih =>
    unfold partsFrom at h
    split at h
    · rename_i hcolon
      rw [List.forall_mem_cons] at h
      rw [List.forall_mem_cons]
      exact ⟨by simpa using h.1, .inr hcolon, (ih h.2).2⟩
    · obtain ⟨hword, hrest⟩ := ih h
      rw [List.forall_mem_cons] at hword
      rw [List.forall_mem_cons]
      exact ⟨hword.2, .inl hword.1, hrest⟩

theorem isDigitBelow_of_isSexagesimal (h : isSexagesimal s = true) :
    ∀ part ∈ partsFrom [] s, ∀ c ∈ part, isDigitBelow 10 c = true := by
  unfold isSexagesimal at h
  split at h
  · rename_i first second rest hparts
    rw [Bool.and_eq_true, List.all_eq_true] at h
    rw [hparts, List.forall_mem_cons]
    exact ⟨isDigitBelow_of_isWhole h.1, fun part hpart => isDigitBelow_of_isSixtieth (h.2 part hpart)⟩
  · cases h

theorem exists_of_ofSixtieths {sum : Nat} {parts : List (List Char)}
    (h : ofSixtieths sum parts = .error fault) :
    ∃ part ∈ parts, inTen (withoutUnderscores part) = .error fault := by
  induction parts generalizing sum with
  | nil => cases h
  | cons part rest ih =>
    unfold ofSixtieths at h
    split at h
    · rename_i hpart
      cases h
      exact ⟨part, List.mem_cons_self, hpart⟩
    · obtain ⟨part', hmem, hpart⟩ := ih h
      exact ⟨part', List.mem_cons_of_mem part hmem, hpart⟩

/-- The magnitude of an integer has a fault only if a word goes too far. -/
theorem excess_of_magnitude? (h : magnitude? s = some (.error fault)) :
    ∃ word, EndsIn word s ∧ Excess word fault := by
  unfold magnitude? at h
  split at h
  · cases h
  · split at h
    · obtain ⟨rfl, hblank⟩ := all_underscores_of_inBase (Option.some.inj h)
      exact ⟨_, endsIn_self _, .base 'b' _ (.inl rfl) (List.cons_ne_nil _ _) hblank⟩
    · cases h
  · split at h
    · obtain ⟨rfl, hblank⟩ := all_underscores_of_inBase (Option.some.inj h)
      exact ⟨_, endsIn_self _, .base 'x' _ (.inr rfl) (List.cons_ne_nil _ _) hblank⟩
    · cases h
  · split at h
    · obtain ⟨-, hblank⟩ := all_underscores_of_inBase (Option.some.inj h)
      exact absurd (hblank '0' List.mem_cons_self) (by decide)
    · cases h
  · split at h
    · rename_i hwhole
      exact ⟨s, endsIn_self s,
        excess_of_inTen (isDigitBelow_of_isWhole hwhole) (Option.some.inj h)⟩
    · split at h
      · rename_i hsexagesimal
        obtain ⟨part, hpart, htoo⟩ := exists_of_ofSixtieths (Option.some.inj h)
        have hends : EndsIn part s := endsIn_of_mem_partsFrom hpart
        exact ⟨part, hends,
          excess_of_inTen (isDigitBelow_of_isSexagesimal hsexagesimal part hpart) htoo⟩
      · cases h

/-! ## Real numbers -/

theorem exists_of_weighSixtieths {sum : Float} {weight : Nat} {xs : List Float}
    (h : weighSixtieths sum weight xs = .error fault) :
    fault = .tooLarge ∧ ∃ k < xs.length, ∃ e,
      (Scalar.ofInt ((60 ^ k * weight : Nat) : Int) : Except ArithFault Float) = .error e := by
  induction xs generalizing sum weight with
  | nil => cases h
  | cons x xs ih =>
    unfold weighSixtieths at h
    split at h
    · rename_i e hweight
      cases h
      refine ⟨rfl, 0, Nat.zero_lt_succ _, e, ?_⟩
      rwa [pow_zero, one_mul]
    · obtain ⟨hfault, k, hk, e, hweight⟩ := ih h
      refine ⟨hfault, k + 1, Nat.succ_lt_succ hk, e, ?_⟩
      rwa [pow_succ, mul_assoc]

theorem le_of_ofInt_sixty_pow {k : Nat} {e : ArithFault}
    (h : (Scalar.ofInt ((60 ^ k * 1 : Nat) : Int) : Except ArithFault Float) = .error e) :
    maxParts ≤ k := by
  by_contra hlt
  have hk : k ≤ 173 := Nat.le_of_lt_succ (Nat.lt_of_not_le hlt)
  have hbound : 60 ^ k * 1 ≤ 2 ^ 1023 :=
    calc 60 ^ k * 1 = 60 ^ k := Nat.mul_one _
      _ ≤ 60 ^ 173 := Nat.pow_le_pow_right (by decide) hk
      _ ≤ 2 ^ 1023 := by decide +kernel
  obtain ⟨x, hx, -⟩ := Binary64.exists_ofInt_of_abs_le (n := ((60 ^ k * 1 : Nat) : Int)) (by
    rw [Nat.abs_cast]
    exact_mod_cast hbound)
  rw [hx] at h
  cases h

theorem exists_of_ofSexagesimal {parts : List (List Char)} {places : List Char}
    (h : ofSexagesimal parts places = .error fault) :
    fault = .tooLarge ∧ maxParts < parts.length := by
  unfold ofSexagesimal at h
  split at h
  · cases h
  · rename_i last others hparts
    obtain ⟨hfault, k, hk, e, hweight⟩ := exists_of_weighSixtieths h
    have hlength : parts.length = others.length + 1 := by
      rw [← List.length_reverse, hparts, List.length_cons]
    rw [List.length_cons, List.length_map] at hk
    have := le_of_ofInt_sixty_pow hweight
    exact ⟨hfault, by omega⟩

/-- A real number has a fault only if it has too many parts in base sixty. -/
theorem excess_of_real? {signed : Bool} (h : real? signed s = some (.error fault)) :
    ∃ word, EndsIn word s ∧ Excess word fault := by
  unfold real? at h
  dsimp only at h
  split at h
  case h_2 => cases h
  case h_1 =>
    rename_i rest hpoint
    split at h
    · obtain ⟨n, -, hn⟩ := Option.map_eq_some_iff.mp h
      cases hn
    · split at h
      · split at h
        · obtain ⟨n, -, hn⟩ := Option.map_eq_some_iff.mp h
          cases hn
        · cases h
      · split at h
        · rename_i hsexagesimal
          obtain ⟨rfl, hparts⟩ := exists_of_ofSexagesimal (Option.some.inj h)
          rw [Bool.and_eq_true] at hsexagesimal
          have hword := forall_of_forall_partsFrom (isDigitBelow_of_isSexagesimal hsexagesimal.1)
          -- the point ends the word
          have hends : EndsIn (s.takeWhile (· != '.')) s := by
            refine ⟨[], '.' :: rest, ?_, endsNumber_cons rfl rest⟩
            rw [← hpoint, List.nil_append, List.takeWhile_append_dropWhile]
          exact ⟨_, hends, .parts _ hword.2 hparts⟩
        · cases h

/-! ## Plain text -/

theorem suffix_sign (s : List Char) : (sign s).2.2 <:+ s := by
  unfold sign
  split
  · exact List.suffix_cons ..
  · exact List.suffix_cons ..
  · exact List.suffix_rfl

theorem excess_of_number? {text : String} (h : number? text = some (.error fault)) :
    ∃ word, EndsIn word text.toList ∧ Excess word fault := by
  have hbody : (sign text.toList).2.2 <:+ text.toList := suffix_sign _
  unfold number? at h
  dsimp only at h
  split at h
  · cases h
  · split at h
    · cases h
    · rename_i hreal
      cases h
      obtain ⟨word, hword, hexcess⟩ := excess_of_real? hreal
      exact ⟨word, hword.append hbody, hexcess⟩
    · obtain ⟨r, hmagnitude, hr⟩ := Option.map_eq_some_iff.mp h
      cases r with
      | ok n => cases hr
      | error fault' =>
        cases hr
        obtain ⟨word, hword, hexcess⟩ := excess_of_magnitude? hmagnitude
        exact ⟨word, hword.append hbody, hexcess⟩

theorem excess_of_ofWords {text : String} (h : ofWords text = .error fault) :
    ∃ word, EndsIn word text.toList ∧ Excess word fault := by
  unfold ofWords at h
  split at h
  · rename_i hdate
    cases h
    obtain ⟨d, hd, hwritten, hexists⟩ | ⟨t, ht, hwritten, hexists⟩ | ⟨z, hz, hwritten, hexists⟩ :=
      exists_of_dateExists? hdate
    · exact ⟨_, hd, .day d hwritten hexists⟩
    · exact ⟨_, ht, .time t hwritten hexists⟩
    · exact ⟨_, hz, .zone z hwritten hexists⟩
  · cases h

/-- A plain text stands for nothing if no document holds it, or if a word in it goes too far. -/
theorem excess_of_ofPlain {text : String} (h : ofPlain text = .error fault) :
    fault = .malformed ∨ ∃ word, EndsIn word text.toList ∧ Excess word fault := by
  unfold ofPlain at h
  iterate 4
    split at h
    · cases h
  split at h
  · cases h
    exact .inl rfl
  · cases hnumber : number? text with
    | none =>
      rw [hnumber] at h
      exact .inr (excess_of_ofWords h)
    | some r =>
      rw [hnumber] at h
      obtain rfl : r = .error fault := h
      exact .inr (excess_of_number? hnumber)

end Orchestrion.Document.Yaml
