import Orchestrion.Document.Yaml.Scalar
import Mathlib.Data.List.Basic

set_option autoImplicit false

/-!
# Words of a date

A date is a day, and there may be a time after it, and the distance of a time zone after that.
Each of them is a word of its own, and where a date does not exist, one of its words does not.
A word of numbers is looked for together with its end, as `2001-10-0` stands in `2001-10-01` and
does not count.
-/

namespace Orchestrion.Document.Yaml

variable {s rest digits : List Char}

/-! ## Ends of numbers -/

/-- What follows a number: nothing, or a character that no number has. -/
def EndsNumber (rest : List Char) : Prop := ∀ c ∈ rest.head?, isHexadecimal c = false

theorem endsNumber_nil : EndsNumber [] := nofun

theorem endsNumber_cons {c : Char} (h : isHexadecimal c = false) (rest : List Char) :
    EndsNumber (c :: rest) := by
  intro c' hc'
  obtain rfl : c = c' := Option.some.inj hc'
  exact h

theorem EndsNumber.of_append (h : EndsNumber (s ++ rest)) : EndsNumber s := by
  cases s with
  | nil => exact endsNumber_nil
  | cons c s => exact endsNumber_cons (h c rfl) s

theorem EndsNumber.append (hs : EndsNumber s) (hrest : EndsNumber rest) : EndsNumber (s ++ rest) := by
  cases s with
  | nil => exact hrest
  | cons c s => exact endsNumber_cons (hs c rfl) (s ++ rest)

/-- A word that stands in a text, with nothing behind it that would go on with a number. -/
def EndsIn (word s : List Char) : Prop :=
  ∃ front rest, s = front ++ (word ++ rest) ∧ EndsNumber rest

theorem endsIn_self (word : List Char) : EndsIn word word :=
  ⟨[], [], (List.append_nil word).symm, endsNumber_nil⟩

theorem endsIn_nil (s : List Char) : EndsIn [] s :=
  ⟨s, [], (List.append_nil s).symm, endsNumber_nil⟩

theorem EndsIn.append {word : List Char} (h : EndsIn word s) (hs : s <:+ rest) :
    EndsIn word rest := by
  obtain ⟨front, back, rfl, hback⟩ := h
  obtain ⟨before, rfl⟩ := hs
  exact ⟨before ++ front, back, (List.append_assoc ..).symm, hback⟩

/-- What ends in a word that ends in a text, ends in the text. -/
theorem EndsIn.trans {word text : List Char} (h : EndsIn word text) (htext : EndsIn text s) :
    EndsIn word s := by
  obtain ⟨front, rest, rfl, hrest⟩ := h
  obtain ⟨before, after, rfl, hafter⟩ := htext
  exact ⟨before ++ front, rest ++ after, by simp, hrest.append hafter⟩

/-! ## Words -/

/-- Digits, at least and at most as many as told. -/
structure AreDigits (least most : Nat) (digits : List Char) : Prop where
  isDigit : ∀ c ∈ digits, Text.isAsciiDigit c = true
  least : least ≤ digits.length
  most : digits.length ≤ most

/-- A day as a word. -/
def Day.text (d : Day) : List Char := d.year ++ '-' :: d.month ++ '-' :: d.day

/-- A day that is written with digits. -/
def Day.IsWritten (d : Day) : Prop :=
  AreDigits 4 4 d.year ∧ AreDigits 1 2 d.month ∧ AreDigits 1 2 d.day

/-- A time as a word. -/
def Time.text (t : Time) : List Char := t.hour ++ ':' :: t.minute ++ ':' :: t.second

/-- A time that is written with digits. -/
def Time.IsWritten (t : Time) : Prop :=
  AreDigits 1 2 t.hour ∧ AreDigits 2 2 t.minute ∧ AreDigits 2 2 t.second

/-- The distance of a time zone as a word. -/
def Zone.text (z : Zone) : List Char := z.sign :: z.hour ++ (z.minute.map (':' :: ·)).getD []

/-- The distance of a time zone that is written with a sign and digits. -/
def Zone.IsWritten (z : Zone) : Prop :=
  (z.sign = '+' ∨ z.sign = '-') ∧ AreDigits 1 2 z.hour ∧ ∀ minute ∈ z.minute, AreDigits 2 2 minute

/-! ## Reading of words -/

theorem twoDigits?_eq_some (h : twoDigits? s = some (digits, rest)) :
    s = digits ++ rest ∧ AreDigits 1 2 digits := by
  unfold twoDigits? at h
  split at h
  · split at h
    · cases h
    · rename_i hc
      split at h
      · rename_i hd
        cases h
        exact ⟨rfl, by simpa using ⟨by simpa using hc, hd⟩, by simp, by simp⟩
      · cases h
        exact ⟨rfl, by simpa using hc, by simp, by simp⟩
  · split at h
    · rename_i hc
      cases h
      exact ⟨rfl, by simpa using hc, by simp, by simp⟩
    · cases h
  · cases h

theorem afterMark?_eq_some {mark : Char} {isLong : Bool}
    (h : afterMark? mark isLong s = some (digits, rest)) :
    s = mark :: (digits ++ rest) ∧ AreDigits (if isLong then 2 else 1) 2 digits := by
  unfold afterMark? at h
  split at h
  · split at h
    · cases h
    · rename_i hmark
      obtain ⟨hdigits, hlength⟩ := Option.filter_eq_some_iff.mp h
      obtain ⟨rfl, hwritten⟩ := twoDigits?_eq_some hdigits
      refine ⟨by simpa using hmark, hwritten.isDigit, ?_, hwritten.most⟩
      cases isLong with
      | false => exact hwritten.least
      | true => simpa using Nat.le_of_eq (beq_iff_eq.mp hlength).symm
  · cases h

theorem day?_eq_some {d : Day} (h : day? s = some (d, rest)) : s = d.text ++ rest ∧ d.IsWritten := by
  unfold day? at h
  dsimp only at h
  split at h
  · rename_i hyear
    simp only [Option.bind_eq_bind, Option.bind_eq_some_iff, Option.pure_def, Option.some.injEq] at h
    obtain ⟨⟨month, s₁⟩, hmonth, ⟨day, s₂⟩, hday, hd⟩ := h
    cases hd
    obtain ⟨hfront, hmonths⟩ := afterMark?_eq_some hmonth
    obtain ⟨rfl, hdays⟩ := afterMark?_eq_some hday
    rw [Bool.and_eq_true, beq_iff_eq, List.all_eq_true] at hyear
    refine ⟨?_, ⟨hyear.2, Nat.le_of_eq hyear.1.symm, Nat.le_of_eq hyear.1⟩, hmonths, hdays⟩
    calc s = s.take 4 ++ s.drop 4 := (List.take_append_drop 4 s).symm
      _ = _ := by rw [hfront]; simp [Day.text]
  · cases h

theorem time?_eq_some {t : Time} (h : time? s = some (t, rest)) :
    s = t.text ++ rest ∧ t.IsWritten := by
  unfold time? at h
  simp only [Option.bind_eq_bind, Option.bind_eq_some_iff, Option.pure_def, Option.some.injEq] at h
  obtain ⟨⟨hour, s₁⟩, hhour, ⟨minute, s₂⟩, hminute, ⟨second, s₃⟩, hsecond, ht⟩ := h
  cases ht
  obtain ⟨rfl, hhours⟩ := twoDigits?_eq_some hhour
  obtain ⟨rfl, hminutes⟩ := afterMark?_eq_some hminute
  obtain ⟨rfl, hseconds⟩ := afterMark?_eq_some hsecond
  exact ⟨by simp [Time.text], hhours, hminutes, hseconds⟩

theorem zone?_eq_some {z : Zone} (h : zone? s = some z) : s = z.text ∧ z.IsWritten := by
  unfold zone? at h
  split at h
  · split at h
    · cases h
    · rename_i sign s hsign
      have hsign : sign = '+' ∨ sign = '-' := by
        simpa [Classical.or_iff_not_imp_left] using hsign
      split at h
      · cases h
      · rename_i hour hhour
        cases h
        obtain ⟨rfl, hhours⟩ := twoDigits?_eq_some hhour
        exact ⟨by simp [Zone.text], hsign, hhours, nofun⟩
      · rename_i hour rest _ hhour
        obtain ⟨rfl, hhours⟩ := twoDigits?_eq_some hhour
        split at h
        · rename_i minute hminute
          cases h
          obtain ⟨rfl, hminutes⟩ := afterMark?_eq_some hminute
          exact ⟨by simp [Zone.text], hsign, hhours, by simpa using hminutes⟩
        · cases h
  · cases h

/-! ## What follows the words -/

theorem suffix_afterPlaces (s : List Char) : afterPlaces s <:+ s := by
  unfold afterPlaces
  split
  · exact (List.dropWhile_suffix _).trans (List.suffix_cons ..)
  · exact List.suffix_rfl

/-- A time comes after a mark or after blanks. -/
theorem endsNumber_of_beforeTime? (h : beforeTime? s = some rest) : rest <:+ s ∧ EndsNumber s := by
  unfold beforeTime? at h
  split at h
  · rename_i c rest'
    split at h
    · rename_i hmark
      cases h
      rw [Bool.or_eq_true, beq_iff_eq, beq_iff_eq] at hmark
      exact ⟨List.suffix_cons .., endsNumber_cons (by rcases hmark with rfl | rfl <;> rfl) _⟩
    · split at h
      · rename_i hblank
        cases h
        rw [Bool.or_eq_true, beq_iff_eq, beq_iff_eq] at hblank
        exact ⟨(List.dropWhile_suffix _).trans (List.suffix_cons ..),
          endsNumber_cons (by rcases hblank with rfl | rfl <;> rfl) _⟩
      · cases h
  · cases h

theorem endsNumber_of_zone? {z : Zone} (h : zone? s = some z) : EndsNumber s := by
  obtain ⟨rfl, hsign, -⟩ := zone?_eq_some h
  exact endsNumber_cons (by rcases hsign with hsign | hsign <;> rw [hsign] <;> rfl) _

/-- The distance of a time zone comes after blanks, or begins with its mark. -/
theorem endsNumber_of_zoneExists? {b : Bool} (h : zoneExists? s = some b) : EndsNumber s := by
  unfold zoneExists? at h
  rcases s with _ | ⟨c, rest⟩
  · exact endsNumber_nil
  · by_cases hblank : (c == ' ' || c == '\t') = true
    · rw [Bool.or_eq_true, beq_iff_eq, beq_iff_eq] at hblank
      exact endsNumber_cons (by rcases hblank with rfl | rfl <;> rfl) _
    · have hkeep : (c :: rest).dropWhile (fun c => c == ' ' || c == '\t') = c :: rest :=
        List.dropWhile_cons_of_neg hblank
      rw [hkeep, if_neg (by simp)] at h
      dsimp only at h
      split at h
      · rename_i hmark
        rw [beq_iff_eq] at hmark
        rw [hmark]
        exact endsNumber_cons rfl _
      · obtain ⟨z, hz, -⟩ := Option.map_eq_some_iff.mp h
        exact endsNumber_of_zone? hz

theorem endsNumber_of_afterPlaces {b : Bool} (h : zoneExists? (afterPlaces s) = some b) :
    EndsNumber s := by
  unfold afterPlaces at h
  split at h
  · exact endsNumber_cons rfl _
  · exact endsNumber_of_zoneExists? h

/-! ## Dates that do not exist -/

theorem exists_of_zoneExists? (h : zoneExists? s = some false) :
    ∃ z : Zone, EndsIn z.text s ∧ z.IsWritten ∧ z.exists = false := by
  unfold zoneExists? at h
  split at h
  · cases h
  · dsimp only at h
    split at h
    · cases h
    · obtain ⟨z, hz, hexists⟩ := Option.map_eq_some_iff.mp h
      obtain ⟨htext, hwritten⟩ := zone?_eq_some hz
      obtain ⟨blanks, hblanks⟩ := List.dropWhile_suffix (fun c => c == ' ' || c == '\t') (l := s)
      refine ⟨z, ⟨blanks, [], ?_, endsNumber_nil⟩, hwritten, hexists⟩
      rw [List.append_nil, ← htext, hblanks]

/-- A date that does not exist has a day that does not, or a time, or a distance of a time
zone. -/
theorem exists_of_dateExists? (h : dateExists? s = some false) :
    (∃ d : Day, EndsIn d.text s ∧ d.IsWritten ∧ d.exists = false) ∨
    (∃ t : Time, EndsIn t.text s ∧ t.IsWritten ∧ t.exists = false) ∨
    ∃ z : Zone, EndsIn z.text s ∧ z.IsWritten ∧ z.exists = false := by
  unfold dateExists? at h
  simp only [Option.bind_eq_bind, Option.bind_eq_some_iff] at h
  obtain ⟨⟨d, rest⟩, hd, h⟩ := h
  obtain ⟨rfl, hwritten⟩ := day?_eq_some hd
  split at h
  · rename_i hempty
    split at h
    · obtain rfl := List.isEmpty_iff.mp hempty
      rw [List.append_nil]
      exact .inl ⟨d, endsIn_self _, hwritten, Option.some.inj h⟩
    · cases h
  · simp only [Option.bind_eq_some_iff, Option.pure_def, Option.some.injEq] at h
    obtain ⟨rest', hrest', ⟨t, rest''⟩, ht, zone, hzone, hexists⟩ := h
    obtain ⟨hsuffix, hends⟩ := endsNumber_of_beforeTime? hrest'
    have hsuffix := hsuffix.trans (List.suffix_append d.text rest)
    obtain ⟨rfl, hwritten'⟩ := time?_eq_some ht
    simp only [Bool.and_eq_false_iff] at hexists
    obtain (hexists | hexists) | rfl := hexists
    · exact .inl ⟨d, ⟨[], rest, rfl, hends⟩, hwritten, hexists⟩
    · have htime : EndsIn t.text (t.text ++ rest'') :=
        ⟨[], rest'', rfl, endsNumber_of_afterPlaces hzone⟩
      exact .inr (.inl ⟨t, htime.append hsuffix, hwritten', hexists⟩)
    · obtain ⟨z, hz, hwritten, hexists⟩ := exists_of_zoneExists? hzone
      have hplaces := (suffix_afterPlaces rest'').trans (List.suffix_append t.text rest'')
      exact .inr (.inr ⟨z, hz.append (hplaces.trans hsuffix), hwritten, hexists⟩)

end Orchestrion.Document.Yaml
