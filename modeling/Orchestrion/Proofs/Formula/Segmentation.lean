import Orchestrion.Decimal.Numeral
import Orchestrion.Formula.Lexer
import Mathlib.Data.List.TakeWhile

set_option autoImplicit false

/-!
# The segments of a formula's text

What the segments of a text are, said without a scanner: each belongs to a class of
texts, each reaches as far as its class allows, and one after the other they are the
text.  The classes do not overlap in their first characters, so a text has one such
list of segments, and the scanner finds it.  A run of digits and dots is a numeral
where the reader of real numbers makes one of it, which it does unless there is a
second dot.
-/

namespace Orchestrion.Formula

open Text (isAsciiDigit isBlank isWordChar startsWord)

/-! ## Classes of segments -/

/-- A text whose first character is of one kind and whose others are of another. -/
def IsRun (first next : Char → Bool) (w : List Char) : Prop :=
  ∃ c cs, w = c :: cs ∧ first c = true ∧ ∀ d ∈ cs, next d = true

/-- The characters that are a token each. -/
def operators : List (Char × Token) :=
  [('+', .operator .add), ('-', .operator .sub), ('*', .operator .mul), ('/', .operator .div),
    ('%', .operator .mod), ('(', .openBracket), (')', .closeBracket)]

/-- A character that begins no comment, run or word and is no operator. -/
def IsOther (c : Char) : Prop :=
  c ≠ '#' ∧ isBlank c = false ∧ isAsciiDigit c = false ∧ startsWord c = false ∧
    c ∉ operators.map Prod.fst

/-- The segments of a class, and the characters that each of them would go on with. -/
inductive Lexeme : Segment → (Char → Bool) → Prop
  | comment {w : List Char} : IsRun (· == '#') inComment w → Lexeme (.comment w) inComment
  | blank {w : List Char} : IsRun isBlank isBlank w → Lexeme (.blank w) isBlank
  /-- digits and at most one dot -/
  | number {w : String} {value : Decimal} : IsRun isAsciiDigit continuesNumber w.toList →
      w.toList.count '.' ≤ 1 → Decimal.readUnsigned w.toList = some value →
      Lexeme (.token (.number w value)) continuesNumber
  /-- digits and more than one dot -/
  | malformed {w : String} : IsRun isAsciiDigit continuesNumber w.toList →
      1 < w.toList.count '.' → Lexeme (.token (.unknown w)) continuesNumber
  | word {w : String} : IsRun startsWord isWordChar w.toList →
      Lexeme (.token (.word w)) isWordChar
  | operator {c : Char} {t : Token} : (c, t) ∈ operators → Lexeme (.token t) fun _ => false
  | other {c : Char} : IsOther c → Lexeme (.token (.unknown (.singleton c))) fun _ => false

/-- Segments that are a text, in order and without a gap; each belongs to a class, and
does not go on with the character behind it. -/
structure IsSegmentation (text : List Char) (segs : List Segment) : Prop where
  joined : segs.flatMap Segment.text = text
  longest : ∀ front seg rest, segs = front ++ seg :: rest →
    ∃ more, Lexeme seg more ∧ ∀ c ∈ (rest.flatMap Segment.text).head?, more c = false

/-! ## Kinds of characters -/

/-- The code points of the blanks. -/
def blanks : List Nat :=
  [0x09, 0x0a, 0x0b, 0x0c, 0x0d, 0x1c, 0x1d, 0x1e, 0x1f, 0x20, 0x85, 0xa0, 0x1680, 0x2000, 0x2001,
    0x2002, 0x2003, 0x2004, 0x2005, 0x2006, 0x2007, 0x2008, 0x2009, 0x200a, 0x2028, 0x2029,
    0x202f, 0x205f, 0x3000]

theorem toNat_mem_blanks {c : Char} (h : isBlank c = true) : c.toNat ∈ blanks := by
  simp only [isBlank, Bool.or_eq_true, Bool.and_eq_true, decide_eq_true_eq, beq_iff_eq] at h
  simp only [blanks, List.mem_cons, List.not_mem_nil, or_false]
  omega

/-- No blank is a character of a word, an operator or the beginning of a comment. -/
theorem of_isBlank {c : Char} (h : isBlank c = true) :
    c ≠ '#' ∧ isWordChar c = false ∧ c ∉ operators.map Prod.fst := by
  have hall : ∀ n ∈ blanks, Char.ofNat n ≠ '#' ∧ isWordChar (Char.ofNat n) = false ∧
      Char.ofNat n ∉ operators.map Prod.fst := by decide +kernel
  have hc := hall c.toNat (toNat_mem_blanks h)
  rwa [Char.ofNat_toNat] at hc

theorem toNat_lt_of_isAsciiDigit {c : Char} (h : isAsciiDigit c = true) : c.toNat < 0x80 := by
  simp only [isAsciiDigit, Bool.and_eq_true, decide_eq_true_eq] at h
  have hle : c.toNat ≤ '9'.toNat := h.2
  have hnine : '9'.toNat < 0x80 := by decide
  omega

theorem isWordChar_of_isAsciiDigit {c : Char} (h : isAsciiDigit c = true) :
    isWordChar c = true := by
  simp [isWordChar, toNat_lt_of_isAsciiDigit h, h]

theorem ne_hash_of_isWordChar {c : Char} (h : isWordChar c = true) : c ≠ '#' := by
  rintro rfl
  exact absurd h (by decide +kernel)

theorem isBlank_of_isWordChar {c : Char} (h : isWordChar c = true) : isBlank c = false := by
  cases hblank : isBlank c with
  | false => rfl
  | true => rw [(of_isBlank hblank).2.1] at h; cases h

theorem isWordChar_of_startsWord {c : Char} (h : startsWord c = true) : isWordChar c = true := by
  simp only [startsWord, Bool.and_eq_true] at h
  exact h.1

theorem isAsciiDigit_of_startsWord {c : Char} (h : startsWord c = true) :
    isAsciiDigit c = false := by
  cases hdigit : isAsciiDigit c with
  | false => rfl
  | true =>
    have hlow := toNat_lt_of_isAsciiDigit hdigit
    simp [startsWord, Text.isDecimalDigit, Text.decimalValue?, hlow, hdigit] at h

/-- An operator begins nothing longer. -/
theorem of_mem_operators {c : Char} {t : Token} (h : (c, t) ∈ operators) :
    (c ≠ '#' ∧ isBlank c = false ∧ isAsciiDigit c = false ∧ startsWord c = false) ∧
      symbol c = t ∧ t.text.toList = [c] := by
  have hall : ∀ x ∈ operators, (x.1 ≠ '#' ∧ isBlank x.1 = false ∧ isAsciiDigit x.1 = false ∧
      startsWord x.1 = false) ∧ symbol x.1 = x.2 ∧ x.2.text.toList = [x.1] := by decide +kernel
  exact hall _ h

theorem symbol_of_not_mem {c : Char} (h : c ∉ operators.map Prod.fst) :
    symbol c = .unknown (.singleton c) := by
  simp only [operators, List.map_cons, List.map_nil, List.mem_cons, List.not_mem_nil, or_false,
    not_or] at h
  unfold symbol
  split <;> simp_all

/-! ## Runs -/

/-- A run ends where its kind of characters does. -/
theorem span_append {p : Char → Bool} {cs rest : List Char} (hcs : ∀ d ∈ cs, p d = true)
    (hrest : ∀ c ∈ rest.head?, p c = false) :
    (cs ++ rest).takeWhile p = cs ∧ (cs ++ rest).dropWhile p = rest := by
  rw [List.takeWhile_append_of_pos hcs, List.dropWhile_append_of_pos hcs]
  cases rest with
  | nil => exact ⟨List.append_nil cs, rfl⟩
  | cons c rest =>
    have hc := hrest c rfl
    simp [hc]

theorem head?_dropWhile (p : Char → Bool) (cs : List Char) :
    ∀ c ∈ (cs.dropWhile p).head?, p c = false := by
  intro c hc
  have hhead := List.head?_dropWhile_not p cs
  rw [Option.mem_def.mp hc] at hhead
  exact hhead

theorem isRun_takeWhile {first next : Char → Bool} {c : Char} (h : first c = true)
    (cs : List Char) : IsRun first next (c :: cs.takeWhile next) :=
  ⟨c, _, rfl, h, fun _ hd => List.mem_takeWhile_imp hd⟩

/-! ## Numerals -/

/-- Digits and dots are digits, or digits up to a first dot. -/
theorem digits_or_dot {cs : List Char} (h : ∀ d ∈ cs, continuesNumber d = true) :
    (∀ d ∈ cs, isAsciiDigit d = true) ∨
      ∃ front rest, cs = front ++ '.' :: rest ∧ ∀ d ∈ front, isAsciiDigit d = true := by
  have hsplit := cs.takeWhile_append_dropWhile (p := isAsciiDigit)
  have hhead := head?_dropWhile isAsciiDigit cs
  cases hrest : cs.dropWhile isAsciiDigit with
  | nil => exact .inl (List.dropWhile_eq_nil_iff.mp hrest)
  | cons d rest =>
    rw [hrest] at hsplit hhead
    have hnext := h d (hsplit ▸ List.mem_append_right _ List.mem_cons_self)
    have hd : d = '.' := by simpa [continuesNumber, hhead d rfl] using hnext
    subst hd
    exact .inr ⟨_, rest, hsplit.symm, fun e he => List.mem_takeWhile_imp he⟩

theorem ne_dot_of_isAsciiDigit {c : Char} (h : isAsciiDigit c = true) : c ≠ '.' := by
  rintro rfl
  cases h

theorem count_dot_of_digits {cs : List Char} (h : ∀ d ∈ cs, isAsciiDigit d = true) :
    cs.count '.' = 0 :=
  List.count_eq_zero.mpr fun hdot => ne_dot_of_isAsciiDigit (h '.' hdot) rfl

/-- What stands around the first dot of a text. -/
theorem around_dot {front : List Char} (h : ∀ d ∈ front, isAsciiDigit d = true)
    (rest : List Char) :
    ((front ++ '.' :: rest).takeWhile isAsciiDigit = front ∧
      (front ++ '.' :: rest).dropWhile isAsciiDigit = '.' :: rest) ∧
    (front ++ '.' :: rest).dropWhile (· ≠ '.') = '.' :: rest ∧
    (front ++ '.' :: rest).filter isAsciiDigit = front ++ rest.filter isAsciiDigit := by
  have hdot : ∀ c ∈ ('.' :: rest).head?, isAsciiDigit c = false := by
    rintro c ⟨⟩
    rfl
  have hne : ∀ d ∈ front, decide (d ≠ '.') = true :=
    fun d hd => decide_eq_true (ne_dot_of_isAsciiDigit (h d hd))
  refine ⟨span_append h hdot, ?_, ?_⟩
  · rw [List.dropWhile_append_of_pos hne]
    rfl
  · rw [List.filter_append, List.filter_eq_self.mpr h]
    rfl

/-- A run of digits and dots is a numeral when it holds at most one dot, and then the
reader of real numbers reads it as the same number; it reads no other such run. -/
theorem numeral_eq {w : List Char} (h : IsRun isAsciiDigit continuesNumber w) :
    (w.count '.' ≤ 1 ∧ ∃ value, Decimal.readUnsigned w = some value ∧
      numeral w = .number (.ofList w) value) ∨
    (1 < w.count '.' ∧ Decimal.readUnsigned w = none ∧ numeral w = .unknown (.ofList w)) := by
  obtain ⟨c, cs, hw, hc, hcs⟩ := h
  have hall : ∀ d ∈ w, continuesNumber d = true := by
    rw [hw]
    refine List.forall_mem_cons.mpr ⟨?_, hcs⟩
    simp [continuesNumber, hc]
  have hend : ∀ d ∈ ([] : List Char).head?, isAsciiDigit d = false := nofun
  rcases digits_or_dot hall with hdigits | ⟨front, rest, rfl, hfront⟩
  · have hspan := span_append hdigits hend
    rw [List.append_nil] at hspan
    have hcount := count_dot_of_digits hdigits
    have hplaces : w.dropWhile (· ≠ '.') = [] :=
      List.dropWhile_eq_nil_iff.mpr fun d hd =>
        decide_eq_true (ne_dot_of_isAsciiDigit (hdigits d hd))
    have hempty : w.isEmpty = false := by rw [hw]; rfl
    refine .inl ⟨by omega, ⟨Decimal.ofDigits w, 0⟩, ?_, ?_⟩
    · simp [Decimal.readUnsigned, hspan, hempty, Decimal.readExponent]
    · simp only [numeral, hcount, hplaces, List.filter_eq_self.mpr hdigits]
      rfl
  · obtain ⟨⟨htake, hdrop⟩, hplaces, hfilter⟩ := around_dot hfront rest
    have hcount : (front ++ '.' :: rest).count '.' = rest.count '.' + 1 := by
      rw [List.count_append, count_dot_of_digits hfront, List.count_cons_self, Nat.zero_add]
    have hempty : front.isEmpty = false := by
      cases front with
      | nil => cases hw; cases hc
      | cons d front => rfl
    have hrest : ∀ d ∈ rest, continuesNumber d = true := fun d hd => hall d (by simp [hd])
    rcases digits_or_dot hrest with hdigits | ⟨front', rest', rfl, hfront'⟩
    · have hspan := span_append hdigits hend
      rw [List.append_nil] at hspan
      have hzero := count_dot_of_digits hdigits
      rw [hzero] at hcount
      refine .inl ⟨hcount.le, ⟨Decimal.ofDigits (front ++ rest), -rest.length⟩, ?_, ?_⟩
      · simp [Decimal.readUnsigned, htake, hdrop, hspan, hempty, Decimal.readExponent]
      · simp only [numeral, hcount, hplaces, hfilter, List.filter_eq_self.mpr hdigits]
        rfl
    · have hmore : 1 < (front ++ '.' :: (front' ++ '.' :: rest')).count '.' := by
        rw [hcount, List.count_append, List.count_cons_self]
        omega
      obtain ⟨⟨htake', hdrop'⟩, -⟩ := around_dot hfront' rest'
      refine .inr ⟨hmore, ?_, if_neg (by omega)⟩
      simp [Decimal.readUnsigned, htake, hdrop, htake', hdrop', hempty, Decimal.readExponent]

/-- A run of digits and dots is a segment. -/
theorem lexeme_numeral {w : List Char} (h : IsRun isAsciiDigit continuesNumber w) :
    Lexeme (.token (numeral w)) continuesNumber ∧ (Segment.token (numeral w)).text = w := by
  rcases numeral_eq h with ⟨hcount, value, hvalue, heq⟩ | ⟨hcount, -, heq⟩
  · rw [heq]
    refine ⟨.number ?_ ?_ ?_, String.toList_ofList⟩
    · rwa [String.toList_ofList]
    · rwa [String.toList_ofList]
    · rwa [String.toList_ofList]
  · rw [heq]
    refine ⟨.malformed ?_ ?_, String.toList_ofList⟩
    · rwa [String.toList_ofList]
    · rwa [String.toList_ofList]

/-- A character that begins nothing longer is a segment. -/
theorem lexeme_symbol {c : Char} (hhash : c ≠ '#') (hblank : isBlank c = false)
    (hdigit : isAsciiDigit c = false) (hword : startsWord c = false) :
    Lexeme (.token (symbol c)) (fun _ => false) ∧ (Segment.token (symbol c)).text = [c] := by
  by_cases hoperator : c ∈ operators.map Prod.fst
  · obtain ⟨⟨c, t⟩, hmem, rfl⟩ := List.mem_map.mp hoperator
    obtain ⟨-, hsymbol, htext⟩ := of_mem_operators hmem
    rw [hsymbol]
    exact ⟨.operator hmem, htext⟩
  · rw [symbol_of_not_mem hoperator]
    exact ⟨.other ⟨hhash, hblank, hdigit, hword, hoperator⟩, String.toList_singleton c⟩

/-! ## Scanning -/

section

variable {c : Char} {w rest : List Char}

theorem segments_number (h : IsRun isAsciiDigit continuesNumber w)
    (hrest : ∀ c ∈ rest.head?, continuesNumber c = false) :
    segments (w ++ rest) = .token (numeral w) :: segments rest := by
  obtain ⟨c, cs, rfl, hc, hcs⟩ := h
  obtain ⟨htake, hdrop⟩ := span_append hcs hrest
  have hword := isWordChar_of_isAsciiDigit hc
  rw [List.cons_append, segments, if_neg (ne_hash_of_isWordChar hword),
    if_neg (Bool.not_eq_true _ ▸ isBlank_of_isWordChar hword), if_pos hc, htake, hdrop]

theorem segments_symbol (hhash : c ≠ '#') (hblank : isBlank c = false)
    (hdigit : isAsciiDigit c = false) (hword : startsWord c = false) :
    segments (c :: rest) = .token (symbol c) :: segments rest := by
  simp [segments, hhash, hblank, hdigit, hword]

end

/-- The scanner takes a segment off the text that begins with it. -/
theorem segments_append {seg : Segment} {more : Char → Bool} (h : Lexeme seg more)
    {rest : List Char} (hrest : ∀ c ∈ rest.head?, more c = false) :
    segments (seg.text ++ rest) = seg :: segments rest := by
  cases h with
  | comment hrun =>
    obtain ⟨c, cs, rfl, hc, hcs⟩ := hrun
    obtain ⟨htake, hdrop⟩ := span_append hcs hrest
    rw [Segment.text, List.cons_append, segments, if_pos (beq_iff_eq.mp hc), htake, hdrop]
  | blank hrun =>
    obtain ⟨c, cs, rfl, hc, hcs⟩ := hrun
    obtain ⟨htake, hdrop⟩ := span_append hcs hrest
    rw [Segment.text, List.cons_append, segments, if_neg (of_isBlank hc).1, if_pos hc, htake, hdrop]
  | @number w value hrun hcount hvalue =>
    have hnumeral : numeral w.toList = .number w value := by
      rcases numeral_eq hrun with ⟨-, value', hvalue', heq⟩ | ⟨hmore, -⟩
      · rw [hvalue] at hvalue'
        cases hvalue'
        rw [heq, String.ofList_toList]
      · omega
    have hscan := segments_number hrun hrest
    rwa [hnumeral] at hscan
  | @malformed w hrun hcount =>
    have hnumeral : numeral w.toList = .unknown w := by
      rcases numeral_eq hrun with ⟨hone, -⟩ | ⟨-, -, heq⟩
      · omega
      · rw [heq, String.ofList_toList]
    have hscan := segments_number hrun hrest
    rwa [hnumeral] at hscan
  | @word w hrun =>
    obtain ⟨c, cs, hw, hc, hcs⟩ := hrun
    obtain ⟨htake, hdrop⟩ := span_append hcs hrest
    have hword := isWordChar_of_startsWord hc
    have hstring : String.ofList (c :: cs) = w := by rw [← hw, String.ofList_toList]
    rw [Segment.text, Token.text, hw, List.cons_append, segments,
      if_neg (ne_hash_of_isWordChar hword), if_neg (Bool.not_eq_true _ ▸ isBlank_of_isWordChar hword),
      if_neg (Bool.not_eq_true _ ▸ isAsciiDigit_of_startsWord hc), if_pos hc, htake, hdrop, hstring]
  | operator hmem =>
    obtain ⟨⟨hhash, hblank, hdigit, hword⟩, hsymbol, htext⟩ := of_mem_operators hmem
    rw [Segment.text, htext, List.singleton_append, segments_symbol hhash hblank hdigit hword,
      hsymbol]
  | @other c hother =>
    obtain ⟨hhash, hblank, hdigit, hword, hnone⟩ := hother
    rw [Segment.text, Token.text, String.toList_singleton, List.singleton_append,
      segments_symbol hhash hblank hdigit hword, symbol_of_not_mem hnone]

/-! ## Segmentations -/

theorem IsSegmentation.nil : IsSegmentation [] [] := by
  refine ⟨rfl, fun front seg rest h => ?_⟩
  simp at h

theorem IsSegmentation.cons {seg : Segment} {more : Char → Bool} {rest : List Char}
    {segs : List Segment} (h : Lexeme seg more) (hrest : ∀ c ∈ rest.head?, more c = false)
    (hsegs : IsSegmentation rest segs) : IsSegmentation (seg.text ++ rest) (seg :: segs) := by
  refine ⟨by rw [List.flatMap_cons, hsegs.joined], fun front seg' rest' heq => ?_⟩
  cases front with
  | nil =>
    cases heq
    rw [hsegs.joined]
    exact ⟨more, h, hrest⟩
  | cons seg'' front =>
    cases heq
    exact hsegs.longest front seg' rest' rfl

/-- A text has no segments but those that the scanner finds. -/
theorem IsSegmentation.eq_segments {text : List Char} {segs : List Segment}
    (h : IsSegmentation text segs) : segs = segments text := by
  induction segs generalizing text with
  | nil =>
    obtain rfl : [] = text := h.joined
    rw [segments]
  | cons seg segs ih =>
    have htail : IsSegmentation (segs.flatMap Segment.text) segs :=
      ⟨rfl, fun front seg' rest heq => h.longest (seg :: front) seg' rest (by rw [heq]; rfl)⟩
    obtain ⟨more, hlexeme, hlongest⟩ := h.longest [] seg segs rfl
    rw [← h.joined, List.flatMap_cons, segments_append hlexeme hlongest, ← ih htail]

/-- The scanner finds the segments of a text. -/
theorem isSegmentation_segments (text : List Char) : IsSegmentation text (segments text) := by
  induction text using segments.induct with
  | case1 => exact segments.eq_1 ▸ .nil
  | case2 cs ih =>
    rw [segments, if_pos rfl]
    have hlexeme : Lexeme (.comment ('#' :: cs.takeWhile inComment)) inComment :=
      .comment (isRun_takeWhile rfl cs)
    simpa [Segment.text] using IsSegmentation.cons hlexeme (head?_dropWhile inComment cs) ih
  | case3 c cs hhash hblank ih =>
    rw [segments, if_neg hhash, if_pos hblank]
    have hlexeme : Lexeme (.blank (c :: cs.takeWhile isBlank)) isBlank :=
      .blank (isRun_takeWhile hblank cs)
    simpa [Segment.text] using IsSegmentation.cons hlexeme (head?_dropWhile isBlank cs) ih
  | case4 c cs hhash hblank hdigit ih =>
    rw [segments, if_neg hhash, if_neg hblank, if_pos hdigit]
    have hrun : IsRun isAsciiDigit continuesNumber (c :: cs.takeWhile continuesNumber) :=
      isRun_takeWhile hdigit cs
    obtain ⟨hlexeme, htext⟩ := lexeme_numeral hrun
    simpa [htext] using IsSegmentation.cons hlexeme (head?_dropWhile continuesNumber cs) ih
  | case5 c cs hhash hblank hdigit hword ih =>
    rw [segments, if_neg hhash, if_neg hblank, if_neg hdigit, if_pos hword]
    have hrun : IsRun startsWord isWordChar (c :: cs.takeWhile isWordChar) :=
      isRun_takeWhile hword cs
    have hlexeme : Lexeme (.token (.word (.ofList (c :: cs.takeWhile isWordChar)))) isWordChar :=
      .word (by rwa [String.toList_ofList])
    simpa [Segment.text, Token.text] using
      IsSegmentation.cons hlexeme (head?_dropWhile isWordChar cs) ih
  | case6 c cs hhash hblank hdigit hword ih =>
    rw [segments, if_neg hhash, if_neg hblank, if_neg hdigit, if_neg hword]
    obtain ⟨hlexeme, htext⟩ := lexeme_symbol hhash (Bool.not_eq_true _ ▸ hblank)
      (Bool.not_eq_true _ ▸ hdigit) (Bool.not_eq_true _ ▸ hword)
    simpa [htext] using IsSegmentation.cons hlexeme (fun _ _ => rfl) ih

/-- A segment that is a run of digits and dots is the token of that run: both are what the
scanner finds in the text of the segment alone. -/
theorem Lexeme.eq_numeral {seg : Segment} {more : Char → Bool} (h : Lexeme seg more)
    (hrun : IsRun isAsciiDigit continuesNumber seg.text) : seg = .token (numeral seg.text) := by
  have hend (p : Char → Bool) : ∀ c ∈ ([] : List Char).head?, p c = false := nofun
  have hnumeral := segments_number hrun (hend continuesNumber)
  rw [segments_append h (hend more)] at hnumeral
  exact (List.cons.inj hnumeral).1

/-- **The longest segments.**  A text has exactly one list of segments: they are the text,
in order and without a gap, each is a comment, a run of blanks, a run of digits and dots,
a word, an operator or another character, and each reaches as far as its class allows.
The tokens are the segments that are neither comments nor blanks, in their order.  A run
of digits and dots is a numeral exactly when it holds at most one dot, and unknown
otherwise. -/
theorem tokenize_longest (s : String) :
    ∃ segs, (∀ segs', IsSegmentation s.toList segs' ↔ segs' = segs) ∧
      tokenize s = segs.filterMap Segment.token? ∧
      ∀ seg ∈ segs, IsRun isAsciiDigit continuesNumber seg.text →
        ((∃ value, seg = .token (.number (.ofList seg.text) value)) ↔
          seg.text.count '.' ≤ 1) ∧
        (seg = .token (.unknown (.ofList seg.text)) ↔ 1 < seg.text.count '.') := by
  have hsegs := isSegmentation_segments s.toList
  refine ⟨segments s.toList, fun segs' => ⟨IsSegmentation.eq_segments, fun h => h ▸ hsegs⟩, rfl,
    fun seg hseg hrun => ?_⟩
  obtain ⟨front, rest, hmem⟩ := List.append_of_mem hseg
  obtain ⟨more, hlexeme, -⟩ := hsegs.longest front seg rest hmem
  have hnumeral := hlexeme.eq_numeral hrun
  generalize seg.text = w at hrun hnumeral ⊢
  subst hnumeral
  rcases numeral_eq hrun with ⟨hcount, value, -, heq⟩ | ⟨hcount, -, heq⟩
  · rw [heq]
    exact ⟨⟨fun _ => hcount, fun _ => ⟨value, rfl⟩⟩, ⟨nofun, fun h => absurd h (by omega)⟩⟩
  · rw [heq]
    exact ⟨⟨nofun, fun h => absurd h (by omega)⟩, ⟨fun _ => hcount, fun _ => rfl⟩⟩

end Orchestrion.Formula
