import Orchestrion.Text.Class

set_option autoImplicit false

/-!
# Text without commands to a terminal

A terminal takes some sequences of characters for commands.  An escape character
and a bracket begin one: after a square bracket that opens, numbers and a letter
follow, after one that closes, a text and a bell.  The program does not address a
terminal, so it takes them out of what it tells.  A command that sets the title of
a window is not taken out but refused.

Scope: what becomes of a line that is told depends on the line only.  What the program
does is written down for any terminal; `Terminal.stripped` is the one that is run here,
and every character can be written to it.
-/

namespace Orchestrion.CommandLine

/-- The character that may stand in front of a command. -/
def hiddenStart : Char := '\x01'

/-- The character that may stand behind a command. -/
def hiddenEnd : Char := '\x02'

/-- The character that ends a command with a text. -/
def bell : Char := '\x07'

/-- A command in front of a text. -/
structure Command where
  /-- how many characters it has -/
  length : Nat
  /-- its numbers, or its text -/
  body : List Char

/-- Whether a character stands between the bracket and the letter of a command. -/
def isParameter (c : Char) : Bool := c == ';' || (Text.decimalValue? c).isSome

/-- Whether a character is a letter of ASCII. -/
def isAsciiLetter (c : Char) : Bool := ('a' ≤ c && c ≤ 'z') || ('A' ≤ c && c ≤ 'Z')

/-- How many characters there are of one that may stand in front of some others. -/
def optional (c : Char) : List Char → Nat
  | d :: _ => if d = c then 1 else 0
  | [] => 0

/-- The command of a bracket whose body is what `isBody` says, and whose last
character is what `isLast` says. -/
def commandAt? (bracket : Char) (isBody isLast : Char → Bool) (s : List Char) : Option Command :=
  let front := optional hiddenStart s
  match s.drop front with
  | '\x1b' :: c :: rest =>
    if c = bracket then
      let body := rest.takeWhile isBody
      match rest.dropWhile isBody with
      | last :: rest =>
        if isLast last then some ⟨front + body.length + 3 + optional hiddenEnd rest, body⟩ else none
      | [] => none
    else none
  | _ => none

/-- A command with numbers. -/
def numbered? : List Char → Option Command := commandAt? '[' isParameter isAsciiLetter

/-- A command with a text. -/
def worded? : List Char → Option Command := commandAt? ']' (· != bell) (· == bell)

/-- The commands in a text with their places, of which `skip` characters belong to
the one before. -/
def commandsFrom (command? : List Char → Option Command) (place skip : Nat) :
    List Char → List (Nat × Command)
  | [] => []
  | c :: rest =>
    match skip, command? (c :: rest) with
    | n + 1, _ => commandsFrom command? (place + 1) n rest
    | 0, some command =>
      (place, command) :: commandsFrom command? (place + 1) (command.length - 1) rest
    | 0, none => commandsFrom command? (place + 1) 0 rest

/-- A text without some of its characters. -/
def cut (s : List Char) (place length : Nat) : List Char :=
  s.take place ++ s.drop (place + length)

/-- The numbers of the commands that set a title; none at all is the first one. -/
def titleNumbers : List String := ["", "0", "2", "02"]

/-- Whether the text of a command is the title of a window: a number and one
semicolon in front of it. -/
def isTitle (body : List Char) : Bool :=
  body.count ';' == 1 && titleNumbers.contains (String.ofList (body.takeWhile (· != ';')))

/-- A text as it is told; `none` if it sets the title of a window.  Commands with a
text come first, and each is cut out where it stood before any of them were. -/
def shown? (text : String) : Option String :=
  let worded := commandsFrom worded? 0 0 text.toList
  if worded.any fun x => isTitle x.2.body then none
  else
    let s := worded.foldl (fun s x => cut s x.1 x.2.length) text.toList
    let numbered := commandsFrom numbered? 0 0 s
    some (String.ofList (numbered.foldr (fun x s => cut s x.1 x.2.length) s))

/-- Where lines are told. -/
structure Terminal where
  /-- what is shown of a line; none if it cannot be told -/
  shown : String → Option String
  /-- what is shown of a line about a failure; none if it cannot be told -/
  shownFailure : String → Option String

/-- The terminal that is run here: commands are taken out of what is told. -/
def Terminal.stripped : Terminal := ⟨shown?, shown?⟩

end Orchestrion.CommandLine
