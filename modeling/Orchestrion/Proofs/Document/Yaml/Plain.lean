import Orchestrion.Document.Yaml.Plain
import Orchestrion.Proofs.Document.Yaml.Excess

set_option autoImplicit false

/-!
# Words of plain text

The lines of a plain text are folded, so it is not in the source as it is.  Its words are: what
it says between two spaces stands in the source, and so does a word that goes too far.
-/

namespace Orchestrion.Document.Yaml

variable {source text space cs rest : List Char} {fault : Fault} {m : Mark} {inFlow : Bool}

/-! ## Words of a text -/

/-- A text whose words all stand in a source, and end there where they end in the text. -/
def IsCovered (source text : List Char) : Prop :=
  ∀ word, (∀ c ∈ word, isSpace c = false) → EndsIn word text → EndsIn word source

theorem isCovered_of_endsIn (h : EndsIn text source) : IsCovered source text :=
  fun _ _ hword => hword.trans h

theorem isCovered_nil : IsCovered source [] := isCovered_of_endsIn (endsIn_nil source)

/-- A word on which a character stands that it does not have is on one side of it. -/
theorem endsIn_or_endsIn {word front back : List Char} {x : Char} (hx : x ∉ word)
    (h : EndsIn word (front ++ x :: back)) : EndsIn word front ∨ EndsIn word back := by
  obtain ⟨before, after, h, hafter⟩ := h
  rcases List.append_eq_append_iff.mp h with ⟨middle, rfl, hmiddle⟩ | ⟨middle, rfl, hmiddle⟩
  · -- the word begins behind the character, or is empty
    rcases middle with _ | ⟨y, middle⟩
    · rcases word with _ | ⟨y, word⟩
      · exact .inl (endsIn_nil front)
      · obtain ⟨rfl, -⟩ := List.cons.inj hmiddle
        simp at hx
    · obtain ⟨rfl, rfl⟩ := List.cons.inj hmiddle
      exact .inr ⟨middle, after, rfl, hafter⟩
  · -- the word begins in front of the character
    rcases List.append_eq_append_iff.mp hmiddle with ⟨left, rfl, hleft⟩ | ⟨left, rfl, hleft⟩
    · rw [hleft] at hafter
      exact .inl ⟨before, left, rfl, hafter.of_append⟩
    · rcases left with _ | ⟨y, left⟩
      · rw [List.append_nil]
        exact .inl ⟨before, [], by simp, endsNumber_nil⟩
      · obtain ⟨rfl, -⟩ := List.cons.inj hleft
        simp at hx

theorem IsCovered.append_cons {front back : List Char} {x : Char} (hfront : IsCovered source front)
    (hx : isSpace x = true) (hback : IsCovered source back) :
    IsCovered source (front ++ x :: back) := by
  intro word hword hends
  have hnot : x ∉ word := by
    intro hmem
    rw [hword x hmem] at hx
    cases hx
  rcases endsIn_or_endsIn hnot hends with h | h
  · exact hfront word hword h
  · exact hback word hword h

/-- Space comes between words. -/
theorem IsCovered.append_space {front back : List Char} (hfront : IsCovered source front)
    (hspace : ∀ c ∈ space, isSpace c = true) (hne : space ≠ []) (hback : IsCovered source back) :
    IsCovered source (front ++ (space ++ back)) := by
  induction space generalizing front with
  | nil => exact absurd rfl hne
  | cons x rest ih =>
    rw [List.forall_mem_cons] at hspace
    apply hfront.append_cons hspace.1
    by_cases hrest : rest = []
    · rw [hrest]
      exact hback
    · exact ih isCovered_nil hspace.2 hrest

/-! ## Plain text -/

/-- Where a word of a plain text ends, no number goes on. -/
theorem isHexadecimal_of_endsWord {c : Char} (h : endsWord inFlow c rest = true) :
    isHexadecimal c = false := by
  rw [endsWord, Bool.or_eq_true, Bool.or_eq_true] at h
  rcases h with (hspace | hcolon) | hflow
  · rcases isSpace_cases hspace with rfl | rfl | rfl | rfl | rfl | rfl <;> rfl
  · rw [Bool.and_eq_true, beq_iff_eq] at hcolon
    rw [hcolon.1]
    rfl
  · simp only [isFlowMark, Bool.and_eq_true, Bool.or_eq_true, beq_iff_eq] at hflow
    rcases hflow.2 with ((((rfl | rfl) | rfl) | rfl) | rfl) | rfl <;> rfl

theorem exists_of_word (inFlow : Bool) (found : List Char) (m : Mark) (cs : List Char) :
    ∃ w, cs = w ++ (word inFlow found m cs).rest ∧ EndsNumber (word inFlow found m cs).rest ∧
      (word inFlow found m cs).found = w.reverse ++ found := by
  induction cs generalizing found m with
  | nil => exact ⟨[], rfl, endsNumber_nil, rfl⟩
  | cons c rest ih =>
    unfold word
    split
    · rename_i hends
      exact ⟨[], rfl, endsNumber_cons (isHexadecimal_of_endsWord hends) rest, rfl⟩
    · obtain ⟨w, hrest, hends, hfound⟩ := ih (c :: found) (m.next c)
      exact ⟨c :: w, congrArg (c :: ·) hrest, hends, by simpa using hfound⟩

/-- Space that is read from a text: it has nothing else, and what is left is a rest of the
text. -/
def Space.Passes (cs : List Char) : Space → Prop
  | .blanks piece | .lines piece =>
    (∀ c ∈ piece.found, isSpace c = true) ∧ piece.rest <:+ cs
  | .separator _ rest => rest <:+ cs

theorem Space.Passes.mono {s : Space} (h : s.Passes rest) (hrest : rest <:+ cs) : s.Passes cs := by
  cases s with
  | blanks piece => exact ⟨h.1, h.2.trans hrest⟩
  | lines piece => exact ⟨h.1, h.2.trans hrest⟩
  | separator mark rest' => exact List.IsSuffix.trans h hrest

theorem isSpace_breakText {c : Char} (h : isBreak c = true) : isSpace (breakText c) = true := by
  unfold breakText
  split
  · rfl
  · simp [isSpace, h]

theorem isSpace_foldBreaks {first : Char} {more : List Char} (hfirst : isSpace first = true)
    (hmore : ∀ c ∈ more, isSpace c = true) : ∀ c ∈ foldBreaks first more, isSpace c = true := by
  unfold foldBreaks
  split
  · split
    · simp [isSpace]
    · exact hmore
  · intro c hc
    rcases List.mem_append.mp hc with hc | hc
    · exact hmore c hc
    · rw [List.mem_singleton.mp hc]
      exact hfirst

theorem passes_linesFrom {first : Char} {more : List Char} (hfirst : isSpace first = true)
    (hmore : ∀ c ∈ more, isSpace c = true) (m : Mark) (cs : List Char) :
    (linesFrom first more m cs).Passes cs := by
  induction cs generalizing more m with
  | nil => exact ⟨isSpace_foldBreaks hfirst hmore, List.suffix_rfl⟩
  | cons c rest ih =>
    unfold linesFrom
    split
    · exact (ih hmore _).mono (List.suffix_cons ..)
    · split
      · rename_i hbreak
        split
        · exact List.suffix_cons ..
        · refine Space.Passes.mono (ih ?_ _) (List.suffix_cons ..)
          rw [List.forall_mem_cons]
          exact ⟨isSpace_breakText hbreak, hmore⟩
      · exact ⟨isSpace_foldBreaks hfirst hmore, List.suffix_rfl⟩

theorem passes_spaceFrom {blanks : List Char} (hblanks : ∀ c ∈ blanks, isSpace c = true) (m : Mark)
    (cs : List Char) : (spaceFrom blanks m cs).Passes cs := by
  induction cs generalizing blanks m with
  | nil => exact ⟨hblanks, List.suffix_rfl⟩
  | cons c rest ih =>
    unfold spaceFrom
    split
    · rename_i hblank
      refine Space.Passes.mono (ih ?_ _) (List.suffix_cons ..)
      rw [List.forall_mem_cons]
      exact ⟨by rw [hblank]; rfl, hblanks⟩
    · split
      · rename_i hbreak
        split
        · exact List.suffix_cons ..
        · exact (passes_linesFrom (isSpace_breakText hbreak) (List.forall_mem_nil _) _ _).mono
            (List.suffix_cons ..)
      · exact ⟨hblanks, List.suffix_rfl⟩

/-- A plain text whose words stand in a source, and what is left is a rest of a text. -/
structure PlainText.IsRead (t : PlainText) (source cs : List Char) : Prop where
  isCovered : IsCovered source t.text
  suffix : t.rest <:+ cs

theorem isRead_plainFrom {indent : Nat} {found : List Char} {ended : Bool} {bound : Nat}
    (hcs : cs <:+ source) (hfound : IsCovered source found.reverse)
    (hspace : ∀ c ∈ space, isSpace c = true) (hne : space = [] → found = []) :
    (plainFrom inFlow indent found space m ended cs bound).IsRead source cs := by
  induction bound generalizing found space m ended cs with
  | zero => exact ⟨hfound, List.suffix_rfl⟩
  | succ bound ih =>
    obtain ⟨w, hsplit, hends, hw⟩ := exists_of_word inFlow (space ++ found) m cs
    unfold plainFrom
    dsimp only
    generalize word inFlow (space ++ found) m cs = piece at hsplit hends hw
    have hrest : piece.rest <:+ cs := hsplit ▸ List.suffix_append ..
    -- the word comes after what has been found, with the space between them
    have hpiece : IsCovered source piece.found.reverse := by
      have hword : EndsIn w cs := ⟨[], piece.rest, hsplit, hends⟩
      have hback : IsCovered source w := isCovered_of_endsIn (hword.append hcs)
      rw [hw, List.reverse_append, List.reverse_reverse, List.reverse_append, List.append_assoc]
      by_cases hempty : space = []
      · rw [hempty, hne hempty]
        exact hback
      · exact hfound.append_space (by simpa using hspace) (by simpa using hempty) hback
    have hgoOn {s : Piece} (hs : (∀ c ∈ s.found, isSpace c = true) ∧ s.rest <:+ piece.rest)
        (ended : Bool) :
        (if s.endsPlain inFlow indent = true then
          PlainText.mk piece.found.reverse s.mark s.rest ended
        else plainFrom inFlow indent piece.found s.found s.mark ended s.rest bound).IsRead
          source cs := by
      split
      · exact ⟨hpiece, hs.2.trans hrest⟩
      · rename_i hends
        have hfound : s.found ≠ [] := by
          intro hnil
          simp [Piece.endsPlain, hnil] at hends
        have hread : (plainFrom inFlow indent piece.found s.found s.mark ended s.rest
            bound).IsRead source s.rest :=
          ih ((hs.2.trans hrest).trans hcs) hpiece hs.1 (fun hnil => absurd hnil hfound)
        exact ⟨hread.isCovered, hread.suffix.trans (hs.2.trans hrest)⟩
    have hpasses := passes_spaceFrom (List.forall_mem_nil _) piece.mark piece.rest
    split
    · exact ⟨hfound, List.suffix_rfl⟩
    · split
      · rename_i hseparator
        rw [hseparator] at hpasses
        exact ⟨hpiece, List.IsSuffix.trans hpasses hrest⟩
      · rename_i hblanks
        rw [hblanks] at hpasses
        exact hgoOn hpasses false
      · rename_i hlines
        rw [hlines] at hpasses
        exact hgoOn hpasses true

end Orchestrion.Document.Yaml
