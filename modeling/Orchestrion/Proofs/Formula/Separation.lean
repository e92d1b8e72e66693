import Orchestrion.Formula.Parser
import Orchestrion.Proofs.Formula.Segmentation

set_option autoImplicit false

/-!
# What separates tokens

Blanks separate tokens, and so does a comment together with the end of its line: the
tokens of two texts with a separator between them are the tokens of the first and then
those of the second.

Whatever is written behind a text leaves all of its segments as they are but the last
one.  That one goes on as far as its class allows.  A word, a numeral or a single
character goes on with no separator; blanks go on with blanks, and no token comes of it.
So only a comment needs to be asked for: it goes on up to the end of its line.
-/

namespace Orchestrion.Formula

open Text (isAsciiDigit isBlank isWordChar startsWord)

/-! ## Separators and cuts -/

/-- The tokens of a list of characters. -/
def tokens (cs : List Char) : List Token := (segments cs).filterMap Segment.token?

/-- Blanks, at least one, or a comment and the end of its line. -/
inductive IsSeparator : List Char → Prop
  | blanks {w : List Char} : w ≠ [] → (∀ c ∈ w, isBlank c = true) → IsSeparator w
  | comment {cs : List Char} : '\n' ∉ cs → IsSeparator ('#' :: cs ++ ['\n'])

/-- Whether the last line of a text has a hash sign: what follows it is a comment that
has not ended. -/
def EndsInComment (a : List Char) : Prop := ∃ front cs, a = front ++ '#' :: cs ∧ '\n' ∉ cs

/-- Whether the place between two texts is inside no token and no comment of the whole:
a segment that has a part on both sides of it is a run of blanks. -/
def IsCut (a b : List Char) : Prop :=
  ∀ front seg back u v, segments (a ++ b) = front ++ seg :: back → seg.text = u ++ v →
    u ≠ [] → v ≠ [] → a = front.flatMap Segment.text ++ u → ∃ w, seg = .blank w

/-! ## What is written behind a text -/

section

variable {a : List Char} {front : List Segment} {last : Segment} {more : Char → Bool}

/-- The segments of a text are those of its parts, one by one. -/
theorem segments_cons_inv {seg : Segment} {segs : List Segment} (h : segments a = seg :: segs) :
    ∃ more, Lexeme seg more ∧ a = seg.text ++ segs.flatMap Segment.text ∧
      segments (segs.flatMap Segment.text) = segs ∧
      ∀ c ∈ (segs.flatMap Segment.text).head?, more c = false := by
  have hsegs := isSegmentation_segments a
  rw [h] at hsegs
  obtain ⟨more, hlexeme, hlongest⟩ := hsegs.longest [] seg segs rfl
  have htail : IsSegmentation (segs.flatMap Segment.text) segs :=
    ⟨rfl, fun front seg' rest heq => hsegs.longest (seg :: front) seg' rest (by rw [heq]; rfl)⟩
  exact ⟨more, hlexeme, hsegs.joined.symm, htail.eq_segments.symm, hlongest⟩

theorem Lexeme.text_ne_nil {seg : Segment} (h : Lexeme seg more) : seg.text ≠ [] := by
  intro hnil
  have hrest : ∀ c ∈ ([] : List Char).head?, more c = false := nofun
  have hscan := segments_append h hrest
  rw [hnil, List.nil_append, segments] at hscan
  cases hscan

/-- The last segment of a text is at its end. -/
theorem of_segments_concat (h : segments a = front ++ [last]) :
    (∃ more, Lexeme last more) ∧ a = front.flatMap Segment.text ++ last.text := by
  have hsegs := isSegmentation_segments a
  have hjoined := hsegs.joined
  obtain ⟨more, hlexeme, -⟩ := hsegs.longest front last [] h
  rw [h, List.flatMap_append, List.flatMap_singleton] at hjoined
  exact ⟨⟨more, hlexeme⟩, hjoined.symm⟩

theorem eq_nil_or_exists_last (a : List Char) :
    a = [] ∨ ∃ front last more, segments a = front ++ [last] ∧ Lexeme last more := by
  rcases List.eq_nil_or_concat (segments a) with hnil | ⟨front, last, hconcat⟩
  · have hjoined := (isSegmentation_segments a).joined
    rw [hnil] at hjoined
    exact .inl hjoined.symm
  · rw [List.concat_eq_append] at hconcat
    obtain ⟨⟨more, hlexeme⟩, -⟩ := of_segments_concat hconcat
    exact .inr ⟨front, last, more, hconcat, hlexeme⟩

/-- What is written behind a text changes no segment but the last. -/
theorem segments_append_last (h : segments a = front ++ [last]) (rest : List Char) :
    segments (a ++ rest) = front ++ segments (last.text ++ rest) := by
  induction front generalizing a with
  | nil =>
    obtain ⟨_, _, ha, -, -⟩ := segments_cons_inv h
    rw [ha]
    simp
  | cons seg front ih =>
    obtain ⟨more, hlexeme, ha, htail, hlongest⟩ := segments_cons_inv h
    generalize (front ++ [last]).flatMap Segment.text = tail at ha htail hlongest
    have hne : tail ≠ [] := by
      rintro rfl
      rw [segments] at htail
      simp at htail
    obtain ⟨c, cs, rfl⟩ := List.exists_cons_of_ne_nil hne
    have hlongest' : ∀ d ∈ (c :: cs ++ rest).head?, more d = false := hlongest
    rw [ha, List.append_assoc, segments_append hlexeme hlongest', ih htail]
    rfl

theorem IsRun.append {first next : Char → Bool} {w u : List Char} (h : IsRun first next w)
    (hu : ∀ c ∈ u, next c = true) : IsRun first next (w ++ u) := by
  obtain ⟨c, cs, rfl, hc, hcs⟩ := h
  exact ⟨c, cs ++ u, rfl, hc, List.forall_mem_append.mpr ⟨hcs, hu⟩⟩

/-- A segment goes on as far as its class allows, and becomes no blank thereby. -/
theorem Lexeme.prolong (h : Lexeme last more) {u : List Char} (hu : ∀ c ∈ u, more c = true) :
    ∃ seg, Lexeme seg more ∧ seg.text = last.text ++ u ∧
      ((∃ w, seg = .blank w) → ∃ w, last = .blank w) := by
  have hnone (hu : ∀ c ∈ u, false = true) : last.text = last.text ++ u := by
    have hnil : u = [] := List.eq_nil_iff_forall_not_mem.mpr fun c hc => Bool.noConfusion (hu c hc)
    rw [hnil, List.append_nil]
  cases h with
  | comment hrun => exact ⟨_, .comment (hrun.append hu), rfl, nofun⟩
  | blank hrun => exact ⟨_, .blank (hrun.append hu), rfl, fun _ => ⟨_, rfl⟩⟩
  | number hrun | malformed hrun =>
    obtain ⟨hlexeme, htext⟩ := lexeme_numeral (hrun.append hu)
    exact ⟨_, hlexeme, htext, nofun⟩
  | @word w hrun =>
    have hrun' := hrun.append hu
    rw [← String.toList_ofList (l := w.toList ++ u)] at hrun'
    exact ⟨_, .word hrun', String.toList_ofList, nofun⟩
  | operator hmem => exact ⟨_, .operator hmem, hnone hu, nofun⟩
  | other hother => exact ⟨_, .other hother, hnone hu, nofun⟩

/-- No segment but a comment goes on with a hash sign, and none but a comment and blanks
goes on with a blank. -/
theorem Lexeme.ends (h : Lexeme last more) :
    (∃ w, last = .comment w) ∨ (∃ w, last = .blank w) ∨
      ∀ c, isBlank c = true ∨ c = '#' → more c = false := by
  have hword {c : Char} (hc : isBlank c = true ∨ c = '#') : isWordChar c = false := by
    rcases hc with hblank | rfl
    · exact (of_isBlank hblank).2.1
    · decide +kernel
  have hnumber {c : Char} (hc : isBlank c = true ∨ c = '#') : continuesNumber c = false := by
    have hdigit : isAsciiDigit c = false := by
      apply Bool.eq_false_iff.mpr
      intro hdigit
      have hnone := hword hc
      rw [isWordChar_of_isAsciiDigit hdigit] at hnone
      cases hnone
    have hdot : c ≠ '.' := by
      rintro rfl
      exact absurd hc (by decide +kernel)
    simp [continuesNumber, hdigit, hdot]
  cases h with
  | comment => exact .inl ⟨_, rfl⟩
  | blank => exact .inr (.inl ⟨_, rfl⟩)
  | number | malformed => exact .inr (.inr fun c hc => hnumber hc)
  | word => exact .inr (.inr fun c hc => hword hc)
  | operator | other => exact .inr (.inr fun _ _ => rfl)

end

/-! ## Tokens -/

section

variable {a b w : List Char} {front : List Segment} {last : Segment} {more : Char → Bool}

theorem tokens_nil : tokens [] = [] := by
  rw [tokens, segments]
  rfl

/-- Blanks have no tokens, and tokens do not depend on them. -/
theorem tokens_dropWhile_isBlank (cs : List Char) : tokens (cs.dropWhile isBlank) = tokens cs := by
  cases cs with
  | nil => rfl
  | cons c cs =>
    cases hc : isBlank c with
    | false => rw [List.dropWhile_cons_of_neg (by simp [hc])]
    | true =>
      rw [List.dropWhile_cons_of_pos hc, tokens, tokens, segments.eq_2, if_neg (of_isBlank hc).1,
        if_pos hc]
      rfl

theorem tokens_blanks_append (hw : ∀ c ∈ w, isBlank c = true) (b : List Char) :
    tokens (w ++ b) = tokens b := by
  rw [← tokens_dropWhile_isBlank, List.dropWhile_append_of_pos hw, tokens_dropWhile_isBlank]

/-- A text whose last segment does not go on keeps its tokens. -/
theorem tokens_append_of_ends (h : segments a = front ++ [last]) (hlast : Lexeme last more)
    (hb : ∀ c ∈ b.head?, more c = false) : tokens (a ++ b) = tokens a ++ tokens b := by
  rw [tokens, segments_append_last h, segments_append hlast hb, tokens, h, tokens,
    ← List.filterMap_append, List.append_assoc]
  rfl

/-- A text that ends with blanks keeps its tokens. -/
theorem tokens_append_of_blank (h : segments a = front ++ [.blank w])
    (hlast : Lexeme (.blank w) more) (b : List Char) : tokens (a ++ b) = tokens a ++ tokens b := by
  have hw : ∀ c ∈ w, isBlank c = true := by
    cases hlast with
    | blank hrun =>
      obtain ⟨c, cs, rfl, hc, hcs⟩ := hrun
      exact List.forall_mem_cons.mpr ⟨hc, hcs⟩
  have hb : (segments (w ++ b)).filterMap Segment.token? = tokens b := tokens_blanks_append hw b
  rw [tokens, segments_append_last h, tokens, h, List.filterMap_append, Segment.text, hb]
  simp [Segment.token?]

theorem blank_newline : ∀ c ∈ ['\n'], isBlank c = true := List.forall_mem_singleton.mpr rfl

/-- What follows the rest of the last line of a separator are blanks. -/
theorem IsSeparator.rest (h : IsSeparator w) : ∀ c ∈ w.dropWhile inComment, isBlank c = true := by
  cases h with
  | blanks _ hblank => exact fun c hc => hblank c (List.dropWhile_suffix _ |>.mem hc)
  | @comment cs hcs =>
    have hin : ∀ c ∈ '#' :: cs, inComment c = true :=
      List.forall_mem_cons.mpr ⟨rfl, fun c hc => bne_iff_ne.mpr fun h => hcs (h ▸ hc)⟩
    rw [List.dropWhile_append_of_pos hin]
    exact blank_newline

/-- A separator begins with a blank or a hash sign. -/
theorem IsSeparator.head (h : IsSeparator w) (b : List Char) :
    ∀ c ∈ (w ++ b).head?, isBlank c = true ∨ c = '#' := by
  cases h with
  | blanks hne hblank =>
    obtain ⟨c, cs, rfl⟩ := List.exists_cons_of_ne_nil hne
    rintro _ ⟨⟩
    exact .inl (hblank c List.mem_cons_self)
  | comment =>
    rintro _ ⟨⟩
    exact .inr rfl

/-- A separator has no tokens, and the text behind it keeps its own. -/
theorem IsSeparator.tokens_append (h : IsSeparator w) (b : List Char) :
    tokens (w ++ b) = tokens b := by
  cases h with
  | blanks _ hblank => exact tokens_blanks_append hblank b
  | @comment cs hcs =>
    have hrun : IsRun (· == '#') inComment ('#' :: cs) :=
      ⟨'#', cs, rfl, rfl, fun c hc => bne_iff_ne.mpr fun h => hcs (h ▸ hc)⟩
    have hend : ∀ c ∈ ('\n' :: b).head?, inComment c = false := by
      rintro _ ⟨⟩
      rfl
    have hscan := segments_append (.comment hrun) hend
    rw [Segment.text] at hscan
    rw [List.append_assoc, List.singleton_append, tokens, hscan, List.filterMap_cons_none rfl]
    exact tokens_blanks_append blank_newline b

/-- A comment at the end of a text goes on up to the end of its line; so it ends in the
separator behind it, if that has the end of a line, or at the text behind that. -/
theorem tokens_append_of_comment {c : List Char} (h : segments a = front ++ [.comment c])
    (hlast : Lexeme (.comment c) more) (hw : IsSeparator w)
    (hend : '\n' ∈ w ∨ ∀ d ∈ b.head?, inComment d = false) :
    tokens (a ++ (w ++ b)) = tokens a ++ tokens b := by
  have hrun : IsRun (· == '#') inComment (c ++ w.takeWhile inComment) := by
    cases hlast with
    | comment hrun => exact hrun.append fun d hd => List.mem_takeWhile_imp hd
  have hrest : ∀ d ∈ (w.dropWhile inComment ++ b).head?, inComment d = false := by
    have hhead := head?_dropWhile inComment w
    cases hdrop : w.dropWhile inComment with
    | nil =>
      have hnone : '\n' ∉ w := fun hmem =>
        absurd (List.dropWhile_eq_nil_iff.mp hdrop _ hmem) (by decide)
      exact hend.resolve_left hnone
    | cons d ds =>
      rw [hdrop] at hhead
      exact hhead
  have hsplit : c ++ (w ++ b) =
      (Segment.comment (c ++ w.takeWhile inComment)).text ++ (w.dropWhile inComment ++ b) := by
    rw [Segment.text, List.append_assoc, ← List.append_assoc (w.takeWhile _),
      List.takeWhile_append_dropWhile]
  rw [tokens, segments_append_last h, Segment.text, hsplit, segments_append (.comment hrun) hrest,
    List.filterMap_append, List.filterMap_cons_none rfl, tokens, h, List.filterMap_append,
    List.filterMap_cons_none rfl, List.filterMap_nil, List.append_nil]
  exact congrArg _ (tokens_blanks_append hw.rest b)

/-- The tokens of two texts with a separator between them. -/
theorem tokens_append_separator (hw : IsSeparator w)
    (h : ∀ front c, segments a = front ++ [.comment c] →
      '\n' ∈ w ∨ ∀ d ∈ b.head?, inComment d = false) :
    tokens (a ++ (w ++ b)) = tokens a ++ tokens b := by
  rcases eq_nil_or_exists_last a with rfl | ⟨front, last, more, hsegs, hlast⟩
  · rw [tokens_nil]
    exact hw.tokens_append b
  · rcases hlast.ends with ⟨c, rfl⟩ | ⟨v, rfl⟩ | hends
    · exact tokens_append_of_comment hsegs hlast hw (h front c hsegs)
    · rw [tokens_append_of_blank hsegs hlast, hw.tokens_append]
    · rw [tokens_append_of_ends hsegs hlast fun d hd => hends d (hw.head b d hd), hw.tokens_append]

/-- A text whose last segment is a comment has no line end behind its hash sign. -/
theorem endsInComment_of_segments {c : List Char} (h : segments a = front ++ [.comment c]) :
    EndsInComment a := by
  obtain ⟨⟨more, hlexeme⟩, ha⟩ := of_segments_concat h
  cases hlexeme with
  | comment hrun =>
    obtain ⟨d, cs, rfl, hd, hcs⟩ := hrun
    obtain rfl : d = '#' := beq_iff_eq.mp hd
    exact ⟨_, cs, ha, fun hmem => absurd (hcs _ hmem) (by decide)⟩

/-! ## Cuts -/

/-- A text may be cut between two of its segments. -/
theorem isCut_of_segments {back : List Segment} (h : segments (a ++ b) = front ++ back)
    (ha : front.flatMap Segment.text = a) : IsCut a b := by
  intro front' seg back' u v h' hseg hu hv ha'
  have hlength : 0 < u.length ∧ 0 < v.length :=
    ⟨List.length_pos_iff.mpr hu, List.length_pos_iff.mpr hv⟩
  have hplace := congrArg List.length (ha.trans ha')
  have hsegs : front ++ back = front' ++ seg :: back' := h.symm.trans h'
  rcases List.append_eq_append_iff.mp hsegs with ⟨between, rfl, -⟩ | ⟨between, rfl, hbetween⟩
  · simp only [List.flatMap_append, List.length_append] at hplace
    omega
  · cases between with
    | nil =>
      simp only [List.append_nil, List.length_append] at hplace
      omega
    | cons seg' between =>
      obtain ⟨rfl, -⟩ := List.cons.inj hbetween
      simp only [List.flatMap_append, List.flatMap_cons, hseg, List.length_append] at hplace
      omega

/-- Where a text may be cut, the last segment in front of the place does not go on behind
it, unless it is a run of blanks. -/
theorem IsCut.blank_or_ends (h : IsCut a b) (hsegs : segments a = front ++ [last])
    (hlast : Lexeme last more) : (∃ w, last = .blank w) ∨ ∀ c ∈ b.head?, more c = false := by
  have hhead := head?_dropWhile more b
  by_cases hnil : b.takeWhile more = []
  · right
    rwa [← b.takeWhile_append_dropWhile (p := more), hnil]
  · left
    obtain ⟨seg, hseg, htext, hblank⟩ :=
      hlast.prolong (u := b.takeWhile more) fun c hc => List.mem_takeWhile_imp hc
    have hsplit : last.text ++ b = seg.text ++ b.dropWhile more := by
      rw [htext, List.append_assoc, List.takeWhile_append_dropWhile]
    have hwhole : segments (a ++ b) = front ++ seg :: segments (b.dropWhile more) := by
      rw [segments_append_last hsegs, hsplit, segments_append hseg hhead]
    obtain ⟨-, ha⟩ := of_segments_concat hsegs
    exact hblank (h front seg _ _ _ hwhole htext hlast.text_ne_nil hnil ha)

/-- A cut text has the tokens of both sides. -/
theorem IsCut.tokens_append (h : IsCut a b) : tokens (a ++ b) = tokens a ++ tokens b := by
  rcases eq_nil_or_exists_last a with rfl | ⟨front, last, more, hsegs, hlast⟩
  · rw [tokens_nil]
    rfl
  · rcases h.blank_or_ends hsegs hlast with ⟨w, rfl⟩ | hends
    · exact tokens_append_of_blank hsegs hlast b
    · exact tokens_append_of_ends hsegs hlast hends

/-- A separator may be written wherever a text may be cut. -/
theorem IsCut.tokens_insert (h : IsCut a b) (hw : IsSeparator w) :
    tokens (a ++ (w ++ b)) = tokens (a ++ b) := by
  rw [h.tokens_append]
  apply tokens_append_separator hw
  intro front c hsegs
  right
  obtain ⟨⟨more, hlexeme⟩, -⟩ := of_segments_concat hsegs
  rcases h.blank_or_ends hsegs hlexeme with ⟨v, hblank⟩ | hends
  · cases hblank
  · cases hlexeme with
    | comment => exact hends

end

/-! ## Texts -/

/-- **Separators are all alike.**  The tokens of two texts with a separator between them
are those of the first and those of the second, unless the first ends in a comment that
the separator does not end.  So one separator may stand for another, and a separator may
be written wherever a text may be cut: what the text is read as, or why it is refused,
stays the same. -/
theorem tokenize_separated (a b : String) :
    (∀ w : String, IsSeparator w.toList → (EndsInComment a.toList → '\n' ∈ w.toList) →
      tokenize (a ++ w ++ b) = tokenize a ++ tokenize b) ∧
    (∀ w w' : String, IsSeparator w.toList → IsSeparator w'.toList →
      (EndsInComment a.toList → '\n' ∈ w.toList ∧ '\n' ∈ w'.toList) →
      parse (a ++ w ++ b) = parse (a ++ w' ++ b)) ∧
    ∀ w : String, IsSeparator w.toList → IsCut a.toList b.toList →
      parse (a ++ w ++ b) = parse (a ++ b) := by
  have hseparated : ∀ w : String, IsSeparator w.toList →
      (EndsInComment a.toList → '\n' ∈ w.toList) →
      tokenize (a ++ w ++ b) = tokenize a ++ tokenize b := by
    intro w hw hcomment
    have htext : (a ++ w ++ b).toList = a.toList ++ (w.toList ++ b.toList) := by simp
    show tokens (a ++ w ++ b).toList = tokens a.toList ++ tokens b.toList
    rw [htext]
    exact tokens_append_separator hw fun front c h =>
      .inl (hcomment (endsInComment_of_segments h))
  refine ⟨hseparated, ?_, ?_⟩
  · intro w w' hw hw' hcomment
    rw [parse, parse, hseparated w hw fun h => (hcomment h).1,
      hseparated w' hw' fun h => (hcomment h).2]
  · intro w hw hcut
    have htext : (a ++ w ++ b).toList = a.toList ++ (w.toList ++ b.toList) := by simp
    have htokens : tokenize (a ++ w ++ b) = tokenize (a ++ b) := by
      show tokens (a ++ w ++ b).toList = tokens (a ++ b).toList
      rw [htext, String.toList_append]
      exact hcut.tokens_insert hw
    rw [parse, parse, htokens]

/-- Remarks in a formula: one between two tokens, and one that ends an open comment. -/
theorem parse_remark :
    (IsSeparator "# two\n".toList ∧ IsCut "1+".toList "2".toList ∧
      parse ("1+" ++ "# two\n" ++ "2") = parse ("1+" ++ "2")) ∧
    EndsInComment "1+ #".toList ∧ IsSeparator "\n".toList ∧
      tokenize ("1+ #" ++ "\n" ++ "2") = tokenize "1+ #" ++ tokenize "2" ∧
      parse ("1+ #" ++ "\n" ++ "2") = parse ("1+ #" ++ "# two\n" ++ "2") := by
  have hremark : IsSeparator "# two\n".toList := by
    show IsSeparator ('#' :: " two".toList ++ ['\n'])
    exact .comment (by decide)
  have hnewline : IsSeparator "\n".toList := .blanks (by decide) blank_newline
  have hsegs : segments ("1+".toList ++ "2".toList) =
      [.token (.number "1" ⟨1, 0⟩), .token (.operator .add)] ++
        [.token (.number "2" ⟨2, 0⟩)] := by
    cbv
  have hcut : IsCut "1+".toList "2".toList := isCut_of_segments hsegs rfl
  obtain ⟨-, -, hinsert⟩ := tokenize_separated "1+" "2"
  obtain ⟨hseparated, hreplace, -⟩ := tokenize_separated "1+ #" "2"
  refine ⟨⟨hremark, hcut, hinsert "# two\n" hremark hcut⟩, ⟨"1+ ".toList, [], rfl, by decide⟩,
    hnewline, hseparated "\n" hnewline fun _ => by decide,
    hreplace "\n" "# two\n" hnewline hremark fun _ => by decide⟩

end Orchestrion.Formula
