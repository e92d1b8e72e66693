import Orchestrion.Document.Yaml.Plain
import Orchestrion.Document.Yaml.Quotation

set_option autoImplicit false

/-!
# Tokens of a YAML text

The structure of a text is told by brackets and by indentation.  Indentation is
made into tokens that open and close collections, so that what follows is a
matter of tokens alone.  A text turns out to be a key only at the colon after it:
it is remembered as a candidate, on its own line and for a limited length, and
the token for the key is put in front of it later.

A text is read only as far as its structure is in order.  So where a token is
written well but stands for no character there is, the tokens before it are told,
as far as no candidate among them may still become a key.

Deviations: what begins a tag, an anchor, an alias, a block scalar or a directive is
refused, so a document with one of these is not read.
-/

namespace Orchestrion.Document.Yaml

/-- A token. -/
inductive Token where
  | documentStart
  | documentEnd
  /-- an indented sequence begins -/
  | openSequence
  /-- an indented mapping begins -/
  | openMapping
  /-- an indented collection ends -/
  | close
  | openList
  | closeList
  | openMap
  | closeMap
  /-- an item of an indented sequence begins -/
  | item
  | comma
  | key
  | value
  /-- a text without quotes -/
  | plain (text : String)
  | quoted (text : String)
  /-- the rest of the text cannot be read -/
  | unreadable (fault : Fault)
  deriving DecidableEq, Repr

/-- A place where a key may have begun. -/
structure Candidate where
  mark : Mark
  /-- the number of tokens before it -/
  position : Nat
  /-- whether there must be a key -/
  required : Bool

/-- The longest key without a mark of its own, in characters. -/
def maxKeyLength : Nat := 1024

/-- What has been read, and what is known about the place reached. -/
structure Layout where
  mark : Mark
  rest : List Char
  /-- the columns of the indented collections that are open, the innermost first -/
  columns : List Nat
  /-- a candidate for a key within each open bracket, the innermost first, and at
  last outside of all -/
  candidates : List (Option Candidate)
  /-- whether a key may begin here -/
  keyAllowed : Bool
  /-- the tokens, the last one first -/
  tokens : List Token
  count : Nat

namespace Layout

/-- The layout at the beginning of a text. -/
def start (cs : List Char) : Layout :=
  match cs with
  | c :: rest =>
    if c = byteOrderMark then ⟨(Mark.mk 0 0 0).next c, rest, [], [none], true, [], 0⟩
    else ⟨⟨0, 0, 0⟩, cs, [], [none], true, [], 0⟩
  | [] => ⟨⟨0, 0, 0⟩, [], [], [none], true, [], 0⟩

/-- The column of the innermost indented collection. -/
def indent (s : Layout) : Int :=
  match s.columns with
  | [] => -1
  | c :: _ => c

/-- Whether a bracket is open. -/
def inFlow (s : Layout) : Bool := 1 < s.candidates.length

/-- A token more. -/
def emit (s : Layout) (t : Token) : Layout :=
  { s with tokens := t :: s.tokens, count := s.count + 1 }

/-- A token more at a place among those there are. -/
def emitAt (s : Layout) (position : Nat) (t : Token) : Layout :=
  let after := s.count - position
  { s with tokens := s.tokens.take after ++ t :: s.tokens.drop after, count := s.count + 1 }

/-- Passes over some characters. -/
def skip (s : Layout) : Nat → Layout
  | 0 => s
  | n + 1 =>
    match s.rest with
    | [] => s
    | c :: rest => skip { s with mark := s.mark.next c, rest := rest } n

/-- Passes over blanks, comments and ends of lines. -/
def skipSpace (s : Layout) : Layout :=
  let (mark, rest, ended) := skipBlank s.mark false false s.rest
  { s with mark, rest, keyAllowed := s.keyAllowed || (ended && !s.inFlow) }

/-! ## Keys -/

/-- Forgets a candidate; one that must be a key cannot be forgotten. -/
def forget : Option Candidate → Except Fault (Option Candidate)
  | some c => if c.required then .error .malformed else .ok none
  | none => .ok none

/-- Forgets the candidates that cannot become keys any more. -/
def staleFrom (mark : Mark) : List (Option Candidate) → Except Fault (List (Option Candidate))
  | [] => .ok []
  | candidate :: outer => do
    let isStale := candidate.any fun c =>
      c.mark.line != mark.line || maxKeyLength < mark.index - c.mark.index
    let candidate ← if isStale then forget candidate else pure candidate
    let outer ← staleFrom mark outer
    return candidate :: outer

/-- Forgets the innermost candidate. -/
def forgetInner (s : Layout) : Except Fault Layout :=
  match s.candidates with
  | [] => .ok s
  | candidate :: outer => do
    let candidate ← forget candidate
    return { s with candidates := candidate :: outer }

/-- Remembers this place as a candidate. -/
def remember (s : Layout) : Except Fault Layout :=
  if s.keyAllowed then do
    let s ← s.forgetInner
    let required := !s.inFlow && s.indent == s.mark.column
    return { s with candidates := some ⟨s.mark, s.count, required⟩ :: s.candidates.drop 1 }
  else .ok s

/-! ## Indentation -/

/-- Closes the collections that are indented more deeply than a column. -/
def closeFrom (column : Int) (s : Layout) : List Nat → Layout
  | [] => { s with columns := [] }
  | c :: outer =>
    if column < c then closeFrom column (s.emit .close) outer else { s with columns := c :: outer }

/-- Closes the collections that are indented more deeply than a column; within
brackets indentation means nothing. -/
def closeTo (s : Layout) (column : Int) : Layout :=
  if s.inFlow then s else closeFrom column s s.columns

/-- Opens a collection at a column, unless one is open there. -/
def openAt (s : Layout) (column position : Nat) (t : Token) : Layout :=
  if s.indent < column then { s.emitAt position t with columns := column :: s.columns } else s

/-! ## One token -/

/-- A line that separates documents. -/
def separator (s : Layout) (t : Token) : Except Fault Layout := do
  let s ← (s.closeTo (-1)).forgetInner
  return ({ s with keyAllowed := false }.emit t).skip 3

/-- An opening bracket. -/
def openBracket (s : Layout) (t : Token) : Except Fault Layout := do
  let s ← s.remember
  return ({ s with candidates := none :: s.candidates, keyAllowed := true }.emit t).skip 1

/-- A closing bracket. -/
def closeBracket (s : Layout) (t : Token) : Except Fault Layout :=
  if s.inFlow then do
    let s ← s.forgetInner
    return ({ s with candidates := s.candidates.drop 1, keyAllowed := false }.emit t).skip 1
  else .error .malformed

/-- A comma. -/
def comma (s : Layout) : Except Fault Layout := do
  let s ← s.forgetInner
  return ({ s with keyAllowed := true }.emit .comma).skip 1

/-- The mark of an item. -/
def item (s : Layout) : Except Fault Layout :=
  if !s.inFlow && !s.keyAllowed then .error .malformed
  else do
    let s := if s.inFlow then s else s.openAt s.mark.column s.count .openSequence
    let s ← s.forgetInner
    return ({ s with keyAllowed := true }.emit .item).skip 1

/-- The mark of a key. -/
def keyMark (s : Layout) : Except Fault Layout :=
  if !s.inFlow && !s.keyAllowed then .error .malformed
  else do
    let s := if s.inFlow then s else s.openAt s.mark.column s.count .openMapping
    let s ← s.forgetInner
    return ({ s with keyAllowed := !s.inFlow }.emit .key).skip 1

/-- The mark of a value: the candidate, if there is one, is its key. -/
def valueMark (s : Layout) : Except Fault Layout :=
  match s.candidates with
  | some c :: outer =>
    let s := { s with candidates := none :: outer, keyAllowed := false }.emitAt c.position .key
    let s := if s.inFlow then s else s.openAt c.mark.column c.position .openMapping
    .ok ((s.emit .value).skip 1)
  | _ =>
    if !s.inFlow && !s.keyAllowed then .error .malformed
    else
      let s := if s.inFlow then s else s.openAt s.mark.column s.count .openMapping
      .ok (({ s with keyAllowed := !s.inFlow }.emit .value).skip 1)

/-- A quoted text. -/
def quotation (s : Layout) (double : Bool) (cs : List Char) (m : Mark) : Except Fault Layout := do
  let s ← s.remember
  let (text, mark, rest) ← quotedFrom double [] .text m cs
  return { s with mark, rest, keyAllowed := false }.emit (.quoted text)

/-- A plain text. -/
def plainText (s : Layout) : Except Fault Layout := do
  let s ← s.remember
  let t := plainFrom s.inFlow (s.indent + 1).toNat [] [] s.mark false s.rest s.rest.length
  return { s with mark := t.mark, rest := t.rest, keyAllowed := t.ended }.emit
    (.plain (String.ofList t.text))

/-- The token that begins with a character. -/
def token (s : Layout) (c : Char) (cs : List Char) : Except Fault Layout :=
  if s.mark.column = 0 ∧ isRuler '-' (c :: cs) then s.separator .documentStart
  else if s.mark.column = 0 ∧ isRuler '.' (c :: cs) then s.separator .documentEnd
  else
    match c with
    | '[' => s.openBracket .openList
    | '\x7b' => s.openBracket .openMap
    | ']' => s.closeBracket .closeList
    | '\x7d' => s.closeBracket .closeMap
    | ',' => s.comma
    | '\'' => s.quotation false cs (s.mark.next c)
    | '"' => s.quotation true cs (s.mark.next c)
    | c =>
      if c = '-' ∧ isOver cs then s.item
      else if c = '?' ∧ (s.inFlow ∨ isOver cs) then s.keyMark
      else if c = ':' ∧ (s.inFlow ∨ isOver cs) then s.valueMark
      else if startsPlain s.inFlow c cs then s.plainText
      else .error .malformed

/-! ## All tokens -/

/-- The place of the first candidate that may still become a key. -/
def firstPending (s : Layout) (candidates : List (Option Candidate)) : Nat :=
  candidates.foldl (fun n candidate => (candidate.map (min n ·.position)).getD n) s.count

/-- The tokens in front of a fault. -/
def tokensBefore (s : Layout) (fault : Fault) : Except Fault (List Token) := do
  let candidates ← staleFrom s.mark s.candidates
  return s.tokens.reverse.take (s.firstPending candidates) ++ [.unreadable fault]

/-- Every token that is left, at most `bound` of them. -/
def run (s : Layout) : Nat → Except Fault (List Token)
  | 0 => .error .malformed
  | bound + 1 => do
    let next := s.skipSpace
    let candidates ← staleFrom next.mark next.candidates
    let next := { next with candidates }.closeTo next.mark.column
    match next.rest with
    | [] => do
      let last ← (next.closeTo (-1)).forgetInner
      return last.tokens.reverse
    | c :: cs =>
      match next.token c cs with
      | .ok next => next.run bound
      | .error .malformed => .error .malformed
      | .error fault => s.tokensBefore fault

end Layout

/-- The tokens of a text. -/
def tokens (text : String) : Except Fault (List Token) :=
  let cs := text.toList
  if cs.all isPrintable then (Layout.start cs).run (cs.length + 1) else .error .malformed

end Orchestrion.Document.Yaml
