import Orchestrion.Document.Yaml.Lines

set_option autoImplicit false

/-!
# Plain text

A text without quotes goes on as long as its lines are indented deeply enough.
The end of a line is a blank, and empty lines are breaks.  Within brackets it
ends at brackets, commas and question marks.
-/

namespace Orchestrion.Document.Yaml

/-- Whether a character has a meaning of its own within brackets. -/
def isFlowMark (c : Char) : Bool :=
  c == ',' || c == '[' || c == ']' || c == '\x7b' || c == '\x7d'

/-- Whether a value mark ends before the rest of a text. -/
def endsKey (inFlow : Bool) (rest : List Char) : Bool :=
  isOver rest || (inFlow && rest.head?.any isFlowMark)

/-- Whether a plain word ends before a character. -/
def endsWord (inFlow : Bool) (c : Char) (rest : List Char) : Bool :=
  isSpace c || (c == ':' && endsKey inFlow rest) || (inFlow && (isFlowMark c || c == '?'))

/-- The characters that begin something else than a plain text. -/
def otherStarts : List Char :=
  ['-', '?', ':', ',', '[', ']', '\x7b', '\x7d', '#', '&', '*', '!', '|', '>', '\'', '"', '%',
    '@', '\x60']

/-- Whether a plain text begins at a character. -/
def startsPlain (inFlow : Bool) (c : Char) (rest : List Char) : Bool :=
  if otherStarts.contains c then
    !isOver rest && (c == '-' || (!inFlow && (c == '?' || c == ':')))
  else !isSpace c

/-- What has been read, the last character first, and where the rest begins. -/
structure Piece where
  found : List Char
  mark : Mark
  rest : List Char

/-- A word after what has been found. -/
def word (inFlow : Bool) (found : List Char) (m : Mark) : List Char → Piece
  | [] => ⟨found, m, []⟩
  | c :: rest =>
    if endsWord inFlow c rest then ⟨found, m, c :: rest⟩
    else word inFlow (c :: found) (m.next c) rest

/-- The space between two words of a plain text. -/
inductive Space where
  /-- blanks of one line -/
  | blanks (piece : Piece)
  /-- an end of a line, and what stands for it -/
  | lines (piece : Piece)
  /-- a line that separates documents -/
  | separator (mark : Mark) (rest : List Char)

/-- Breaks stand for the lines they end, one for none of its own. -/
def foldBreaks (first : Char) (more : List Char) : List Char :=
  if first = '\n' then (if more.isEmpty then [' '] else more) else more ++ [first]

/-- The lines after the first break, whose breaks come last one first. -/
def linesFrom (first : Char) (more : List Char) (m : Mark) : List Char → Space
  | [] => .lines ⟨foldBreaks first more, m, []⟩
  | c :: rest =>
    if c = ' ' then linesFrom first more (m.next c) rest
    else if isBreak c then
      if atSeparator rest then .separator (m.next c) rest
      else linesFrom first (breakText c :: more) (m.next c) rest
    else .lines ⟨foldBreaks first more, m, c :: rest⟩

/-- The space after a word, whose blanks come last one first. -/
def spaceFrom (blanks : List Char) (m : Mark) : List Char → Space
  | [] => .blanks ⟨blanks, m, []⟩
  | c :: rest =>
    if c = ' ' then spaceFrom (c :: blanks) (m.next c) rest
    else if isBreak c then
      if atSeparator rest then .separator (m.next c) rest
      else linesFrom (breakText c) [] (m.next c) rest
    else .blanks ⟨blanks, m, c :: rest⟩

/-- A plain text. -/
structure PlainText where
  text : List Char
  mark : Mark
  rest : List Char
  /-- whether its last line has ended -/
  ended : Bool

/-- Whether a plain text ends at some space: there is none, a comment follows,
or the next line is not indented deeply enough. -/
def Piece.endsPlain (space : Piece) (inFlow : Bool) (indent : Nat) : Bool :=
  space.found.isEmpty || space.rest.head? == some '#' ||
    (!inFlow && space.mark.column < indent)

/-- The plain text from a word on, after what has been found and some space; it
has at most `bound` words more, and its lines begin at column `indent` or later. -/
def plainFrom (inFlow : Bool) (indent : Nat) (found space : List Char) (m : Mark) (ended : Bool)
    (cs : List Char) : Nat → PlainText
  | 0 => ⟨found.reverse, m, cs, ended⟩
  | bound + 1 =>
    let w := word inFlow (space ++ found) m cs
    if w.mark.index = m.index then ⟨found.reverse, m, cs, ended⟩
    else
      let goOn (s : Piece) (ended : Bool) : PlainText :=
        if s.endsPlain inFlow indent then ⟨w.found.reverse, s.mark, s.rest, ended⟩
        else plainFrom inFlow indent w.found s.found s.mark ended s.rest bound
      match spaceFrom [] w.mark w.rest with
      | .separator m rest => ⟨w.found.reverse, m, rest, true⟩
      | .blanks s => goOn s false
      | .lines s => goOn s true

end Orchestrion.Document.Yaml
