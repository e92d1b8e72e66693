set_option autoImplicit false

/-!
# Lines of a YAML text

Where a character stands matters in YAML, so a place in the text is a line, a
column and an index.  A line of three dashes or points separates documents.
-/

namespace Orchestrion.Document.Yaml

/-- Why a text is no document. -/
inductive Fault where
  /-- the text is not written as a document is -/
  | malformed
  /-- a number or a character out of range -/
  | outOfRange
  /-- a number that is too large to be computed with -/
  | tooLarge
  deriving DecidableEq, Repr

/-- A place in a text. -/
structure Mark where
  line : Nat
  column : Nat
  index : Nat
  deriving DecidableEq, Repr

/-- Whether a character ends a line. -/
def isBreak (c : Char) : Bool := c == '\n' || c == '\x85' || c == '\u2028' || c == '\u2029'

/-- The break that stays in a text for one that ends a line. -/
def breakText (c : Char) : Char := if c == '\x85' then '\n' else c

/-- Whether a character ends a word: a blank or a break. -/
def isSpace (c : Char) : Bool := c == ' ' || c == '\t' || isBreak c

/-- Whether a word ends before the rest of a text. -/
def isOver : List Char → Bool
  | [] => true
  | c :: _ => isSpace c

/-- A mark without width. -/
def byteOrderMark : Char := '\ufeff'

/-- The place after a character. -/
def Mark.next (m : Mark) (c : Char) : Mark :=
  if isBreak c then ⟨m.line + 1, 0, m.index + 1⟩
  else if c = byteOrderMark then { m with index := m.index + 1 }
  else { m with column := m.column + 1, index := m.index + 1 }

/-- Whether a line begins with three of a character that are a word. -/
def isRuler (c : Char) : List Char → Bool
  | x :: y :: z :: rest => x == c && y == c && z == c && isOver rest
  | _ => false

/-- Whether a line separates documents. -/
def atSeparator (cs : List Char) : Bool := isRuler '-' cs || isRuler '.' cs

/-- Whether a text may hold a character. -/
def isPrintable (c : Char) : Bool :=
  let n := c.toNat
  n == 0x9 || n == 0xa || n == 0xd || (0x20 ≤ n && n ≤ 0x7e) || n == 0x85 ||
    (0xa0 ≤ n && n ≤ 0xfffd) || 0x10000 ≤ n

/-- Passes over blanks, comments and ends of lines; tells whether there has been
one of the last. -/
def skipBlank (m : Mark) (inComment ended : Bool) : List Char → Mark × List Char × Bool
  | [] => (m, [], ended)
  | c :: rest =>
    if isBreak c then skipBlank (m.next c) false true rest
    else if inComment || c == ' ' then skipBlank (m.next c) inComment ended rest
    else if c == '#' then skipBlank (m.next c) true ended rest
    else (m, c :: rest, ended)

end Orchestrion.Document.Yaml
