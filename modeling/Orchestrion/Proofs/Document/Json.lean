import Orchestrion.Document.Json

set_option autoImplicit false

/-!
# Integers of too many digits

A text that is no document in JSON is reported as such, but for one fault: an integer that
has more digits than an integer may have.  It stands in the text as a run of digits, since
every token is read from the place where the one before it has ended.
-/

namespace Orchestrion.Document.Json

variable {s rest : List Char}

/-! ## What follows a token -/

theorem suffix_of_after? {word : List Char} (h : after? word s = some rest) : rest <:+ s := by
  unfold after? at h
  split at h
  · cases h
    exact List.drop_suffix ..
  · cases h

theorem suffix_of_plainWord? {a : Atom} {words : List (List Char × Atom)}
    (h : plainWord? s words = some (a, rest)) : rest <:+ s := by
  induction words with
  | nil => cases h
  | cons word words ih =>
    unfold plainWord? at h
    split at h
    · rename_i hafter
      cases h
      exact suffix_of_after? hafter
    · exact ih h

theorem suffix_of_stringPieces {pieces found : List Piece}
    (h : stringPieces pieces s = some (found, rest)) : rest <:+ s := by
  fun_induction stringPieces pieces s with
  | case1 => cases h
  | case2 pieces rest' =>
    cases h
    exact List.suffix_cons ..
  | case3 pieces a b c d rest' n hn ih => exact (ih h).trans ⟨['\\', 'u', a, b, c, d], rfl⟩
  | case4 => cases h
  | case5 pieces c rest' _ e he ih => exact (ih h).trans ⟨['\\', c], rfl⟩
  | case6 => cases h
  | case7 => cases h
  | case8 pieces c rest' _ _ _ hc ih => exact (ih h).trans (List.suffix_cons ..)

theorem suffix_placesOf (s : List Char) : (placesOf s).2.1 <:+ s := by
  unfold placesOf
  split
  · split
    · exact (List.dropWhile_suffix _).trans (List.suffix_cons ..)
    · exact List.suffix_rfl
  · exact List.suffix_rfl

theorem suffix_signed (s : List Char) : (Decimal.signed s).2 <:+ s := by
  unfold Decimal.signed
  split
  · exact List.suffix_cons ..
  · exact List.suffix_cons ..
  · exact List.suffix_rfl

theorem suffix_exponentOf (s : List Char) : (exponentOf s).2 <:+ s := by
  unfold exponentOf
  split
  · split
    · dsimp only
      split
      · exact List.suffix_rfl
      · exact (List.dropWhile_suffix _).trans ((suffix_signed _).trans (List.suffix_cons ..))
    · exact List.suffix_rfl
  · exact List.suffix_rfl

theorem suffix_unsignedNumber (negative : Bool) (s : List Char) :
    (unsignedNumber negative s).2 <:+ s := by
  have hwhole : s.dropWhile Text.isAsciiDigit <:+ s := List.dropWhile_suffix _
  have hrest : (exponentOf (placesOf (s.dropWhile Text.isAsciiDigit)).2.1).2 <:+ s :=
    (suffix_exponentOf _).trans ((suffix_placesOf _).trans hwhole)
  unfold unsignedNumber
  dsimp only
  split
  · exact hwhole
  · split
    · exact hrest
    · split
      · exact hrest
      · exact hrest

theorem suffix_token (c : Char) (cs : List Char) : (token c cs).2 <:+ c :: cs := by
  have hnext : cs <:+ c :: cs := List.suffix_cons ..
  unfold token
  split
  case h_7 =>
    split
    · rename_i hpieces
      exact (suffix_of_stringPieces hpieces).trans hnext
    · exact List.nil_suffix
  case h_8 =>
    split
    · rename_i hword
      exact suffix_of_plainWord? hword
    · split
      · exact (suffix_unsignedNumber true cs).trans hnext
      · split
        · exact suffix_unsignedNumber false _
        · exact List.nil_suffix
  all_goals exact hnext

/-! ## Long integers -/

/-- A run of as many digits stands in a text, and it is too long for an integer. -/
def HasLongInteger (s : List Char) (n : Nat) : Prop :=
  ∃ digits, digits <:+: s ∧ (∀ c ∈ digits, Text.isAsciiDigit c = true) ∧ digits.length = n ∧
    Decimal.maxIntegerDigits < n

theorem HasLongInteger.mono {s' : List Char} {n : Nat} (h : HasLongInteger s n) (hs : s <:+: s') :
    HasLongInteger s' n := by
  obtain ⟨digits, hinfix, hdigits⟩ := h
  exact ⟨digits, hinfix.trans hs, hdigits⟩

theorem hasLongInteger_of_unsignedNumber {negative : Bool} {n : Nat}
    (h : (unsignedNumber negative s).1 = .longInteger n) : HasLongInteger s n := by
  unfold unsignedNumber at h
  dsimp only at h
  split at h
  · cases h
  · split at h
    · cases h
    · split at h
      · rename_i hlong
        cases h
        exact ⟨_, (List.takeWhile_prefix _).isInfix, List.all_eq_true.mp List.all_takeWhile, rfl,
          hlong⟩
      · cases h

theorem hasLongInteger_of_token {c : Char} {cs : List Char} {n : Nat}
    (h : (token c cs).1 = .longInteger n) : HasLongInteger (c :: cs) n := by
  unfold token at h
  split at h
  case h_7 => split at h <;> cases h
  case h_8 =>
    split at h
    · cases h
    · split at h
      · exact (hasLongInteger_of_unsignedNumber h).mono (List.suffix_cons ..).isInfix
      · split at h
        · exact hasLongInteger_of_unsignedNumber h
        · cases h
  all_goals cases h

theorem hasLongInteger_of_mem_tokensFrom {found : List Token} {fuel n : Nat}
    (h : .longInteger n ∈ tokensFrom found fuel s) : .longInteger n ∈ found ∨ HasLongInteger s n := by
  fun_induction tokensFrom found fuel s with
  | case1 => exact .inl h
  | case2 => exact .inl h
  | case3 found fuel c cs hblank ih =>
    exact (ih h).imp_right fun hlong => hlong.mono (List.suffix_cons ..).isInfix
  | case4 found fuel c cs hblank rest' htoken =>
    exact .inl ((List.mem_cons.mp h).resolve_left nofun)
  | case5 found fuel c cs hblank t rest' _ htoken ih =>
    rcases ih h with hfound | hlong
    · rcases List.mem_cons.mp hfound with rfl | hfound
      · exact .inr (hasLongInteger_of_token (congrArg Prod.fst htoken))
      · exact .inl hfound
    · have hsuffix := suffix_token c cs
      rw [htoken] at hsuffix
      exact .inr (hlong.mono hsuffix.isInfix)

theorem hasLongInteger_of_mem_tokens {n : Nat} (h : .longInteger n ∈ tokens s) :
    HasLongInteger s n :=
  (hasLongInteger_of_mem_tokensFrom (List.mem_reverse.mp h)).resolve_left nofun

/-! ## Reading -/

theorem eq_longInteger_of_step {state : State} {t : Token} {n : Nat}
    (h : step state t = .error (.integerTooLong n)) : t = .longInteger n := by
  have hstart {stack : List Frame} (h : startValue stack t = .error (.integerTooLong n)) :
      t = .longInteger n := by
    unfold startValue at h
    split at h <;> cases h
    rfl
  unfold step at h
  split at h
  case h_1 => exact hstart h
  case h_3 => exact hstart h
  case h_8 =>
    unfold endValue at h
    split at h <;> cases h
  all_goals cases h

theorem mem_of_run {state : State} {ts : List Token} {n : Nat}
    (h : run state ts = .error (.integerTooLong n)) : .longInteger n ∈ ts := by
  induction ts generalizing state with
  | nil =>
    rcases state with _ | _ | _ | _ | _ | ⟨v, _ | _⟩ <;> cases h
  | cons t ts ih =>
    rw [run] at h
    split at h
    · exact List.mem_cons_of_mem _ (ih h)
    · rename_i hstep
      cases h
      exact eq_longInteger_of_step hstep ▸ List.mem_cons_self

/-- A text in which an integer is found to be too long has a run of digits that is. -/
theorem hasLongInteger_of_read {text : String} {n : Nat}
    (h : read text = .error (.integerTooLong n)) : HasLongInteger text.toList n :=
  hasLongInteger_of_mem_tokens (mem_of_run h)

end Orchestrion.Document.Json
