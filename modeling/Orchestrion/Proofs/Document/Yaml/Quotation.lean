import Orchestrion.Document.Yaml.Quotation
import Orchestrion.Proofs.Document.Yaml.Excess
import Mathlib.Data.List.Induction

set_option autoImplicit false

/-!
# Escapes in quoted text

An escape is read digit by digit, and where it has no character, all of it stands in the source.
Only the longest escapes have room for such a number.
-/

namespace Orchestrion.Document.Yaml

variable {source cs : List Char} {fault : Fault}

/-! ## Numbers of characters -/

/-- A hexadecimal digit has the same value in all notations. -/
theorem hexValue?_eq_some {c : Char} {d : Nat} (h : Json.hexValue? c = some d) :
    d = digitValue c ∧ d < 16 := by
  -- characters are compared by their numbers
  have hle (a b : Char) : a ≤ b ↔ a.toNat ≤ b.toNat := Iff.rfl
  have h₀ : '0'.toNat = 48 := rfl
  have h₉ : '9'.toNat = 57 := rfl
  have ha : 'a'.toNat = 97 := rfl
  have hf : 'f'.toNat = 102 := rfl
  have hA : 'A'.toNat = 65 := rfl
  have hF : 'F'.toNat = 70 := rfl
  unfold Json.hexValue? at h
  unfold digitValue
  simp only [hle] at h ⊢
  split at h
  · cases h
    rw [if_pos (by omega)]
    omega
  · split at h
    · cases h
      rw [if_neg (by omega), if_neg (by omega)]
      omega
    · split at h
      · cases h
        rw [if_neg (by omega), if_pos (by omega)]
        omega
      · cases h

theorem ofBase_concat (base : Nat) (digits : List Char) (c : Char) :
    ofBase base (digits ++ [c]) = base * ofBase base digits + digitValue c := by
  unfold ofBase
  rw [List.foldl_append, List.foldl_cons, List.foldl_nil]

theorem ofBase_lt {digits : List Char}
    (hdigits : ∀ c ∈ digits, (Json.hexValue? c).isSome = true) :
    ofBase 16 digits < 16 ^ digits.length := by
  induction digits using List.reverseRecOn with
  | nil => exact Nat.one_pos
  | append_singleton digits c ih =>
    obtain ⟨d, hd⟩ := Option.isSome_iff_exists.mp (hdigits c (by simp))
    obtain ⟨rfl, hlt⟩ := hexValue?_eq_some hd
    have hfront := ih fun c hc => hdigits c (List.mem_append_left _ hc)
    rw [ofBase_concat, List.length_append, List.length_singleton, pow_succ]
    omega

theorem pos_of_codeLength? {mark : Char} {n : Nat} (h : codeLength? mark = some n) : 0 < n := by
  unfold codeLength? at h
  split at h <;> cases h <;> decide

/-- A character's number goes beyond only in the longest escape. -/
theorem farCode_of_charOf {mark : Char} {digits : List Char}
    (hlength : codeLength? mark = some digits.length)
    (hdigits : ∀ c ∈ digits, (Json.hexValue? c).isSome = true)
    (h : charOf (ofBase 16 digits) = .error fault) : mark = 'U' ∧ FarCode digits fault := by
  have hbound := ofBase_lt hdigits
  -- the numbers of the shorter escapes are too small
  have hshort (hsmall : digits.length ≤ 4) : charOf (ofBase 16 digits) ≠ .error fault := by
    have hpow : 16 ^ digits.length ≤ 16 ^ 4 := Nat.pow_le_pow_right (by decide) hsmall
    rw [charOf, if_neg (by omega), if_neg (by omega)]
    exact nofun
  unfold codeLength? at hlength
  split at hlength
  · have hlength := Option.some.inj hlength
    exact absurd h (hshort (by omega))
  · have hlength := Option.some.inj hlength
    exact absurd h (hshort (by omega))
  · have hlength := Option.some.inj hlength
    unfold charOf at h
    split at h
    · rename_i hfar
      cases h
      exact ⟨rfl, .tooLarge hlength.symm hdigits hfar⟩
    · split at h
      · rename_i hnumber hbeyond
        cases h
        exact ⟨rfl, .outOfRange hlength.symm hdigits hbeyond (Nat.lt_of_not_le hnumber)⟩
      · cases h
  · cases hlength

/-! ## Escapes -/

/-- Characters that end with an escape and some of its digits. -/
structure EndsWithEscape (before : List Char) (mark : Char) (digits : List Char) : Prop where
  suffix : '\\' :: mark :: digits <:+ before
  hex : ∀ c ∈ digits, (Json.hexValue? c).isSome = true

theorem EndsWithEscape.concat {before digits : List Char} {mark c : Char}
    (h : EndsWithEscape before mark digits) (hc : (Json.hexValue? c).isSome = true) :
    EndsWithEscape (before ++ [c]) mark (digits ++ [c]) := by
  constructor
  · obtain ⟨front, rfl⟩ := h.suffix
    exact ⟨front, by simp⟩
  · intro c' hc'
    rcases List.mem_append.mp hc' with hc' | hc'
    · exact h.hex c' hc'
    · rwa [List.mem_singleton.mp hc']

/-- The part of an escape that has been read stands at the end of some characters. -/
def QuoteState.Follows (before : List Char) : QuoteState → Prop
  | .escape => ['\\'] <:+ before
  | .code left value =>
    ∃ mark digits, EndsWithEscape before mark digits ∧ ofBase 16 digits = value ∧
      codeLength? mark = some (digits.length + left) ∧ 0 < left
  | _ => True

theorem follows_blank (before : List Char) (c : Char) (state : QuoteState) :
    (state.blank c).Follows before := by
  cases state <;> trivial

theorem follows_lineEnd (before : List Char) (c : Char) (state : QuoteState) :
    (state.lineEnd c).Follows before := by
  cases state <;> trivial

/-- A quoted text ends within the source, and an escape without a character stands in it. -/
theorem yields_quotedFrom {before : List Char} {state : QuoteState} (double : Bool)
    (found : List Char) (m : Mark) (hsource : before ++ cs = source) (hstate : state.Follows before) :
    Yields source (fun q => q.2.2 <:+ cs) (quotedFrom double found state m cs) := by
  induction cs generalizing before state found m with
  | nil =>
    unfold quotedFrom
    split
    · exact .ok List.suffix_rfl
    · exact .malformed
  | cons c rest ih =>
    have hsource : before ++ [c] ++ rest = source := by simpa using hsource
    have hnext {state : QuoteState} (found : List Char) (m : Mark)
        (hstate : state.Follows (before ++ [c])) :
        Yields source (fun q => q.2.2 <:+ c :: rest) (quotedFrom double found state m rest) :=
      (ih found m hsource hstate).imp fun q hq => hq.trans (List.suffix_cons ..)
    unfold quotedFrom
    split
    · -- after a single quote
      split
      · exact hnext _ _ trivial
      · exact .ok List.suffix_rfl
    · -- after a backslash
      split
      · split
        · exact .malformed
        · exact hnext _ _ trivial
      · split
        · exact hnext _ _ trivial
        · rename_i n hnone hlength
          apply hnext
          obtain ⟨front, rfl⟩ := hstate
          refine ⟨c, [], ⟨⟨front, by simp⟩, List.forall_mem_nil _⟩, rfl, ?_, ?_⟩
          · rwa [List.length_nil, Nat.zero_add]
          · exact pos_of_codeLength? hlength
        · exact .malformed
    · -- among the digits of a character's number
      split
      · exact .malformed
      · rename_i left value _ d hd
        obtain ⟨mark, digits, hescape, rfl, hlength, hleft⟩ := hstate
        obtain ⟨rfl, -⟩ := hexValue?_eq_some hd
        have hescape := hescape.concat (Option.isSome_of_eq_some hd)
        rw [← ofBase_concat]
        dsimp only
        split
        · rename_i hlast
          have hone : left = 1 := by omega
          split
          · rename_i fault hfault
            have hword : '\\' :: mark :: (digits ++ [c]) <:+: source := by
              rw [← hsource]
              exact hescape.suffix.isInfix.trans (List.prefix_append ..).isInfix
            have hlength' : codeLength? mark = some (digits ++ [c]).length := by
              rw [hlength, hone, List.length_append, List.length_singleton]
            obtain ⟨rfl, hfar⟩ := farCode_of_charOf hlength' hescape.hex hfault
            exact .exceeds (.escape _ hword hfar)
          · exact hnext _ _ trivial
        · refine hnext _ _ ⟨mark, digits ++ [c], hescape, rfl, ?_, by omega⟩
          rw [hlength, List.length_append, List.length_singleton]
          congr 1
          omega
    · -- among other characters
      split
      · exact hnext _ _ (follows_blank _ _ _)
      · split
        · split
          · exact .malformed
          · exact hnext _ _ (follows_lineEnd _ _ _)
        · dsimp only
          split
          · split
            · exact .ok (List.suffix_cons ..)
            · split
              · rename_i hback
                subst hback
                exact hnext _ _ (List.suffix_append ..)
              · exact hnext _ _ trivial
          · split
            · exact hnext _ _ trivial
            · exact hnext _ _ trivial

end Orchestrion.Document.Yaml
