import Orchestrion.Document.Json
import Orchestrion.Document.Yaml.Lines

set_option autoImplicit false

/-!
# Quoted text

Between single quotes every character stands for itself, and a quote is written
twice.  Between double quotes a backslash begins an escape.  Lines are folded in
both: the blanks around the end of a line do not count.
-/

namespace Orchestrion.Document.Yaml

/-- What the next character finds. -/
inductive QuoteState where
  | text
  /-- blanks that may stand before the end of a line, the last one first -/
  | blanks (found : List Char)
  /-- the breaks of ended lines, the last one first; an escaped break counts as
  none -/
  | lines (first : Option Char) (more : List Char)
  | escape
  /-- digits of a character's number are still to come -/
  | code (left value : Nat)
  /-- a single quote, which is the last one unless another follows -/
  | quote

/-- What has been found, with the space that the state holds. -/
def QuoteState.flush (found : List Char) : QuoteState → List Char
  | .blanks space => space ++ found
  | .lines none more => more ++ found
  | .lines (some first) more =>
    if first = '\n' then (if more.isEmpty then ' ' :: found else more ++ found)
    else more ++ first :: found
  | _ => found

/-- The state after a blank. -/
def QuoteState.blank (c : Char) : QuoteState → QuoteState
  | .blanks found => .blanks (c :: found)
  | .lines first more => .lines first more
  | _ => .blanks [c]

/-- The state after the end of a line. -/
def QuoteState.lineEnd (c : Char) : QuoteState → QuoteState
  | .lines first more => .lines first (breakText c :: more)
  | _ => .lines (some (breakText c)) []

/-- The character that a one letter escape stands for. -/
def escaped? : Char → Option Char
  | '0' => some '\x00'
  | 'a' => some '\x07'
  | 'b' => some '\x08'
  | 't' => some '\t'
  | '\t' => some '\t'
  | 'n' => some '\n'
  | 'v' => some '\x0b'
  | 'f' => some '\x0c'
  | 'r' => some '\r'
  | 'e' => some '\x1b'
  | ' ' => some ' '
  | '"' => some '"'
  | '\\' => some '\\'
  | '/' => some '/'
  | 'N' => some '\x85'
  | '_' => some '\xa0'
  | 'L' => some '\u2028'
  | 'P' => some '\u2029'
  | _ => none

/-- The number of digits after an escape for a character's number. -/
def codeLength? : Char → Option Nat
  | 'x' => some 2
  | 'u' => some 4
  | 'U' => some 8
  | _ => none

/-- The character of a number.  There is none beyond the last plane, and no
number is taken from 2³¹ on. -/
def charOf (n : Nat) : Except Fault Char :=
  if 0x80000000 ≤ n then .error .tooLarge
  else if 0x110000 ≤ n then .error .outOfRange
  else .ok (Json.loneUnit n)

/-- A quoted text, and where the rest begins. -/
abbrev Quotation := String × Mark × List Char

/-- The quoted text up to its closing quote, after what has been found. -/
def quotedFrom (double : Bool) (found : List Char) (state : QuoteState) (m : Mark) :
    List Char → Except Fault Quotation
  | [] =>
    match state with
    | .quote => .ok (String.ofList found.reverse, m, [])
    | _ => .error .malformed
  | c :: rest =>
    match state with
    | .quote =>
      if c = '\'' then quotedFrom double (c :: found) .text (m.next c) rest
      else .ok (String.ofList found.reverse, m, c :: rest)
    | .escape =>
      if isBreak c then
        if atSeparator rest then .error .malformed
        else quotedFrom double found (.lines none []) (m.next c) rest
      else
        match escaped? c, codeLength? c with
        | some e, _ => quotedFrom double (e :: found) .text (m.next c) rest
        | none, some n => quotedFrom double found (.code n 0) (m.next c) rest
        | none, none => .error .malformed
    | .code left value =>
      match Json.hexValue? c with
      | none => .error .malformed
      | some d =>
        let value := 16 * value + d
        if left ≤ 1 then
          match charOf value with
          | .error fault => .error fault
          | .ok e => quotedFrom double (e :: found) .text (m.next c) rest
        else quotedFrom double found (.code (left - 1) value) (m.next c) rest
    | state =>
      if c = ' ' ∨ c = '\t' then quotedFrom double found (state.blank c) (m.next c) rest
      else if isBreak c then
        if atSeparator rest then .error .malformed
        else quotedFrom double found (state.lineEnd c) (m.next c) rest
      else
        let found := state.flush found
        if double then
          if c = '"' then .ok (String.ofList found.reverse, m.next c, rest)
          else if c = '\\' then quotedFrom double found .escape (m.next c) rest
          else quotedFrom double (c :: found) .text (m.next c) rest
        else if c = '\'' then quotedFrom double found .quote (m.next c) rest
        else quotedFrom double (c :: found) .text (m.next c) rest

end Orchestrion.Document.Yaml
