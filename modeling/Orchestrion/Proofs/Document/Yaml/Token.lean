import Orchestrion.Document.Yaml.Token
import Orchestrion.Proofs.Document.Yaml.Plain
import Orchestrion.Proofs.Document.Yaml.Quotation

set_option autoImplicit false

/-!
# Tokens of a source

The tokens of a text are read from the place where the one before them has ended, whatever
closes or opens between them.  So the words of a plain token stand in the source, and where the
rest of a text cannot be read, a word in it goes too far.
-/

namespace Orchestrion.Document.Yaml

variable {source cs : List Char} {fault : Fault}

/-- What a token says stands in a source, word by word. -/
def Token.StandsIn (source : List Char) : Token → Prop
  | .plain text => IsCovered source text.toList
  | .unreadable fault => Exceeds source fault
  | _ => True

/-- Tokens all of which stand in a source. -/
def AllStandIn (source : List Char) (ts : List Token) : Prop := ∀ t ∈ ts, t.StandsIn source

namespace Layout

variable {s : Layout} {t : Token}

/-- A layout whose tokens are from a source, of which a rest is left. -/
structure IsOf (s : Layout) (source : List Char) : Prop where
  suffix : s.rest <:+ source
  tokens : AllStandIn source s.tokens

theorem isOf_start (cs : List Char) : (start cs).IsOf cs := by
  unfold start
  split
  · split
    · exact ⟨List.suffix_cons .., List.forall_mem_nil _⟩
    · exact ⟨List.suffix_rfl, List.forall_mem_nil _⟩
  · exact ⟨List.suffix_rfl, List.forall_mem_nil _⟩

theorem IsOf.emit (h : s.IsOf source) (t : Token) (ht : t.StandsIn source) :
    (s.emit t).IsOf source := by
  refine ⟨h.suffix, fun t' ht' => ?_⟩
  rcases List.mem_cons.mp ht' with rfl | ht'
  · exact ht
  · exact h.tokens t' ht'

theorem IsOf.emitAt (h : s.IsOf source) (position : Nat) (t : Token) (ht : t.StandsIn source) :
    (s.emitAt position t).IsOf source := by
  refine ⟨h.suffix, fun t' ht' => ?_⟩
  rcases List.mem_append.mp ht' with ht' | ht'
  · exact h.tokens t' (List.mem_of_mem_take ht')
  · rcases List.mem_cons.mp ht' with rfl | ht'
    · exact ht
    · exact h.tokens t' (List.mem_of_mem_drop ht')

theorem IsOf.skip (h : s.IsOf source) (n : Nat) : (s.skip n).IsOf source := by
  induction n generalizing s with
  | zero => exact h
  | succ n ih =>
    unfold Layout.skip
    split
    · exact h
    · rename_i c rest hrest
      exact ih ⟨(hrest ▸ List.suffix_cons c rest).trans h.suffix, h.tokens⟩

theorem suffix_skipBlank (m : Mark) (inComment ended : Bool) (cs : List Char) :
    (skipBlank m inComment ended cs).2.1 <:+ cs := by
  induction cs generalizing m inComment ended with
  | nil => exact List.suffix_rfl
  | cons c rest ih =>
    unfold skipBlank
    split
    · exact (ih ..).trans (List.suffix_cons ..)
    · split
      · exact (ih ..).trans (List.suffix_cons ..)
      · split
        · exact (ih ..).trans (List.suffix_cons ..)
        · exact List.suffix_rfl

theorem IsOf.skipSpace (h : s.IsOf source) : s.skipSpace.IsOf source :=
  ⟨(suffix_skipBlank ..).trans h.suffix, h.tokens⟩

theorem IsOf.closeFrom (h : s.IsOf source) (column : Int) (columns : List Nat) :
    (s.closeFrom column columns).IsOf source := by
  induction columns generalizing s with
  | nil => exact ⟨h.suffix, h.tokens⟩
  | cons c outer ih =>
    unfold Layout.closeFrom
    split
    · exact ih (h.emit .close trivial)
    · exact ⟨h.suffix, h.tokens⟩

theorem IsOf.closeTo (h : s.IsOf source) (column : Int) : (s.closeTo column).IsOf source := by
  unfold Layout.closeTo
  split
  · exact h
  · exact h.closeFrom column s.columns

theorem IsOf.openAt (h : s.IsOf source) (column position : Nat) (t : Token)
    (ht : t.StandsIn source) :
    (s.openAt column position t).IsOf source := by
  unfold Layout.openAt
  split
  · exact ⟨h.suffix, (h.emitAt position t ht).tokens⟩
  · exact h

/-! ### Candidates -/

theorem yields_forget (source : List Char) (candidate : Option Candidate) :
    Yields source (fun _ => True) (forget candidate) := by
  unfold forget
  split
  · split
    · exact .malformed
    · exact .ok trivial
  · exact .ok trivial

theorem yields_staleFrom (source : List Char) (m : Mark) (candidates : List (Option Candidate)) :
    Yields source (fun _ => True) (staleFrom m candidates) := by
  induction candidates with
  | nil => exact .ok trivial
  | cons candidate outer ih =>
    unfold staleFrom
    have hcons (candidate : Option Candidate) : Yields source (fun _ => True)
        (staleFrom m outer >>= fun outer => pure (candidate :: outer)) := by
      refine ih.bind fun _ _ => ?_
      exact .ok trivial
    dsimp only
    split
    · exact (yields_forget source candidate).bind fun candidate _ => hcons candidate
    · exact hcons candidate

theorem IsOf.forgetInner (h : s.IsOf source) :
    Yields source (fun s => s.IsOf source) s.forgetInner := by
  unfold Layout.forgetInner
  split
  · exact .ok h
  · exact (yields_forget source _).bind fun _ _ => .ok ⟨h.suffix, h.tokens⟩

theorem IsOf.remember (h : s.IsOf source) :
    Yields source (fun s => s.IsOf source) s.remember := by
  unfold Layout.remember
  split
  · exact h.forgetInner.bind fun s hs => .ok ⟨hs.suffix, hs.tokens⟩
  · exact .ok h

/-! ### One token -/

section

variable (h : s.IsOf source)

include h

theorem IsOf.separator (ht : t.StandsIn source) :
    Yields source (fun s => s.IsOf source) (s.separator t) := by
  refine (h.closeTo (-1)).forgetInner.bind fun s hs => ?_
  have hkey : Layout.IsOf { s with keyAllowed := false } source := ⟨hs.suffix, hs.tokens⟩
  exact .ok ((hkey.emit t ht).skip 3)

theorem IsOf.openBracket (ht : t.StandsIn source) :
    Yields source (fun s => s.IsOf source) (s.openBracket t) := by
  refine h.remember.bind fun s hs => ?_
  have hinner : Layout.IsOf { s with candidates := none :: s.candidates, keyAllowed := true }
      source := ⟨hs.suffix, hs.tokens⟩
  exact .ok ((hinner.emit t ht).skip 1)

theorem IsOf.closeBracket (ht : t.StandsIn source) :
    Yields source (fun s => s.IsOf source) (s.closeBracket t) := by
  unfold Layout.closeBracket
  split
  · refine h.forgetInner.bind fun s hs => ?_
    have houter : Layout.IsOf { s with candidates := s.candidates.drop 1, keyAllowed := false }
        source := ⟨hs.suffix, hs.tokens⟩
    exact .ok ((houter.emit t ht).skip 1)
  · exact .malformed

theorem IsOf.comma : Yields source (fun s => s.IsOf source) s.comma := by
  refine h.forgetInner.bind fun s hs => ?_
  have hkey : Layout.IsOf { s with keyAllowed := true } source := ⟨hs.suffix, hs.tokens⟩
  exact .ok ((hkey.emit .comma trivial).skip 1)

/-- A collection is opened where no bracket is. -/
theorem IsOf.opened (column position : Nat) (t : Token) (ht : t.StandsIn source) :
    (if s.inFlow then s else s.openAt column position t).IsOf source := by
  split
  · exact h
  · exact h.openAt column position t ht

theorem IsOf.item : Yields source (fun s => s.IsOf source) s.item := by
  unfold Layout.item
  split
  · exact .malformed
  · refine (h.opened _ _ .openSequence trivial).forgetInner.bind fun s hs => ?_
    have hkey : Layout.IsOf { s with keyAllowed := true } source := ⟨hs.suffix, hs.tokens⟩
    exact .ok ((hkey.emit .item trivial).skip 1)

theorem IsOf.keyMark : Yields source (fun s => s.IsOf source) s.keyMark := by
  unfold Layout.keyMark
  split
  · exact .malformed
  · refine (h.opened _ _ .openMapping trivial).forgetInner.bind fun s hs => ?_
    have hkey : Layout.IsOf { s with keyAllowed := !s.inFlow } source := ⟨hs.suffix, hs.tokens⟩
    exact .ok ((hkey.emit .key trivial).skip 1)

theorem IsOf.valueMark : Yields source (fun s => s.IsOf source) s.valueMark := by
  unfold Layout.valueMark
  split
  · rename_i c outer hcandidates
    have hkey : Layout.IsOf { s with candidates := none :: outer, keyAllowed := false } source :=
      ⟨h.suffix, h.tokens⟩
    have hopened := (hkey.emitAt c.position .key trivial).opened c.mark.column c.position
      .openMapping trivial
    exact .ok ((hopened.emit .value trivial).skip 1)
  · split
    · exact .malformed
    · have hopened := h.opened s.mark.column s.count .openMapping trivial
      refine .ok (IsOf.skip (IsOf.emit ?_ .value trivial) 1)
      exact ⟨hopened.suffix, hopened.tokens⟩

theorem IsOf.quotation (double : Bool) (hcs : cs <:+ source) (m : Mark) :
    Yields source (fun s => s.IsOf source) (s.quotation double cs m) := by
  refine h.remember.bind fun s hs => ?_
  obtain ⟨before, hbefore⟩ := hcs
  have hstart : QuoteState.text.Follows before := trivial
  refine (yields_quotedFrom double [] m hbefore hstart).bind fun q hq => ?_
  have hrest : Layout.IsOf { s with mark := q.2.1, rest := q.2.2, keyAllowed := false } source :=
    ⟨hq.trans ⟨before, hbefore⟩, hs.tokens⟩
  exact .ok (hrest.emit (.quoted q.1) trivial)

theorem IsOf.plainText : Yields source (fun s => s.IsOf source) s.plainText := by
  refine h.remember.bind fun s hs => ?_
  have hread : (plainFrom s.inFlow (s.indent + 1).toNat [] [] s.mark false s.rest
      s.rest.length).IsRead source s.rest :=
    isRead_plainFrom hs.suffix isCovered_nil (List.forall_mem_nil _) (fun _ => rfl)
  generalize plainFrom s.inFlow (s.indent + 1).toNat [] [] s.mark false s.rest s.rest.length = t
    at hread
  have hrest : Layout.IsOf { s with mark := t.mark, rest := t.rest, keyAllowed := t.ended } source :=
    ⟨hread.suffix.trans hs.suffix, hs.tokens⟩
  refine .ok (hrest.emit (.plain (String.ofList t.text)) ?_)
  simpa [Token.StandsIn] using hread.isCovered

/-- The token that begins with a character. -/
theorem IsOf.token {c : Char} (hrest : s.rest = c :: cs) :
    Yields source (fun s => s.IsOf source) (s.token c cs) := by
  have hcs : cs <:+ source := (hrest ▸ List.suffix_cons c cs).trans h.suffix
  unfold Layout.token
  split
  · exact h.separator trivial
  · split
    · exact h.separator trivial
    · split
      · exact h.openBracket trivial
      · exact h.openBracket trivial
      · exact h.closeBracket trivial
      · exact h.closeBracket trivial
      · exact h.comma
      · exact h.quotation false hcs _
      · exact h.quotation true hcs _
      · split
        · exact h.item
        · split
          · exact h.keyMark
          · split
            · exact h.valueMark
            · split
              · exact h.plainText
              · exact .malformed

end

/-! ### All tokens -/

theorem IsOf.tokensBefore (h : s.IsOf source) (hfault : Exceeds source fault) :
    Yields source (AllStandIn source) (s.tokensBefore fault) := by
  refine (yields_staleFrom source s.mark s.candidates).bind fun candidates _ => ?_
  refine .ok fun t ht => ?_
  rcases List.mem_append.mp ht with ht | ht
  · exact h.tokens t (List.mem_reverse.mp (List.mem_of_mem_take ht))
  · rw [List.mem_singleton.mp ht]
    exact hfault

theorem IsOf.run (h : s.IsOf source) (bound : Nat) :
    Yields source (AllStandIn source) (s.run bound) := by
  induction bound generalizing s with
  | zero => exact .malformed
  | succ bound ih =>
    unfold Layout.run
    refine (yields_staleFrom source _ _).bind fun candidates _ => ?_
    have hspace := h.skipSpace
    have hstale : Layout.IsOf { s.skipSpace with candidates } source :=
      ⟨hspace.suffix, hspace.tokens⟩
    have hnext := hstale.closeTo s.skipSpace.mark.column
    dsimp only
    generalize Layout.closeTo { s.skipSpace with candidates } s.skipSpace.mark.column = next
      at hnext
    split
    · refine (hnext.closeTo (-1)).forgetInner.bind fun last hlast => ?_
      exact .ok fun t ht => hlast.tokens t (List.mem_reverse.mp ht)
    · rename_i c cs hrest
      have htoken := hnext.token hrest
      split
      · rename_i next' hok
        rw [hok] at htoken
        exact ih htoken.of_ok
      · exact .malformed
      · rename_i fault hmalformed hfault
        rw [hfault] at htoken
        cases htoken with
        | malformed => exact absurd rfl hmalformed
        | exceeds hexceeds => exact h.tokensBefore hexceeds

end Layout

/-- What the tokens of a text say stands in the text. -/
theorem yields_tokens (text : String) :
    Yields text.toList (AllStandIn text.toList) (tokens text) := by
  unfold tokens
  dsimp only
  split
  · exact (Layout.isOf_start text.toList).run _
  · exact .malformed

end Orchestrion.Document.Yaml
