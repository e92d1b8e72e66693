import Orchestrion.Text.CaseRanges
import Orchestrion.Text.CasedRanges
import Orchestrion.Text.Class

set_option autoImplicit false

/-!
# Small letters

A text with every capital replaced by its small letter, one for one; the dotted
capital I becomes a small i with a dot above, and the capital sigma has a small
letter of its own at the end of a word.
-/

namespace Orchestrion.Text

/-- The small letters of one character. -/
def lowerChar (c : Char) : List Char :=
  let n := c.toNat
  if n < 0x80 then [c.toLower]
  else if n = 0x130 then ['i', '\u0307']
  else
    match capitalRuns.find? fun (first, last, step, _) =>
        first ≤ n && n ≤ last && (n - first) % step == 0 with
    | some (_, _, _, offset) => [Char.ofNat (n + offset).toNat]
    | none => [c]

/-! ## The end of a word -/

/-- Whether a character is passed over in looking for a neighbour. -/
def isIgnored (c : Char) : Bool := inRanges ignoredRanges c.toNat

/-- Whether the first of some characters that is not passed over has a case. -/
def meetsCased (cs : List Char) : Bool :=
  match cs.dropWhile isIgnored with
  | [] => false
  | c :: _ => inRanges casedRanges c.toNat

/-- The small letter of a sigma between some characters, those before it last one
first. -/
def lowerSigma (before after : List Char) : Char :=
  if meetsCased before && !meetsCased after then '\u03c2' else '\u03c3'

/-- The small letters of some characters behind others, which come last one
first. -/
def lowerFrom (before : List Char) : List Char → List Char
  | [] => []
  | c :: rest =>
    if c = '\u03a3' then lowerSigma before rest :: lowerFrom (c :: before) rest
    else lowerChar c ++ lowerFrom (c :: before) rest

/-- A text in small letters. -/
def lower (s : String) : String := String.ofList (lowerFrom [] s.toList)

end Orchestrion.Text
