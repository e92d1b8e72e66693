import Orchestrion.Document.Yaml.Content
import Orchestrion.Document.Yaml.Token

set_option autoImplicit false

/-!
# Reading a YAML text

The tokens of a text are read as one node.  Where a node may be left out, the
token that follows tells that it is.  Every call is given one step less than its
caller and takes a token at least every other time, so that twice as many steps
as there are tokens are enough.

Scope: a text holds one document, and what stands for a value is told by its writing
only, as there are no tags.  Deviations: nesting is not limited, and the whole text is
cut into tokens before any of them is read.
-/

namespace Orchestrion.Document.Yaml

/-- What has been read, and the tokens that are left. -/
abbrev Reading (β : Type) := Except Fault (β × List Token)

/-- Why some tokens do not go on as they should: the first one is out of place, or
it cannot be read. -/
def faultAt : List Token → Fault
  | .unreadable fault :: _ => fault
  | _ => .malformed

/-- Whether an indented mapping goes on or ends with a token. -/
def endsEntry (t : Token) : Bool := t == .key || t == .value || t == .close

/-- Whether an indented sequence goes on or ends with a token. -/
def endsItem (t : Token) : Bool := t == .item || t == .close

/-- Whether a sequence that is not indented goes on or ends with a token. -/
def endsRunItem (t : Token) : Bool := t == .item || endsEntry t

/-- Whether something within square brackets ends with a token. -/
def endsListItem (t : Token) : Bool := t == .comma || t == .closeList

/-- Whether something within braces ends with a token. -/
def endsMapEntry (t : Token) : Bool := t == .comma || t == .closeMap

/-- Where a node stands. -/
inductive Site where
  /-- within brackets -/
  | flow
  /-- in an indented sequence, or on its own -/
  | block
  /-- in an indented mapping, where a sequence need not be indented -/
  | entry
  deriving DecidableEq

/-- The tokens after a comma, which may only be left out at the beginning. -/
def afterComma (first : Bool) (ts : List Token) : Except Fault (List Token) :=
  if first then .ok ts
  else
    match ts with
    | .comma :: ts => .ok ts
    | ts => .error (faultAt ts)

mutual

/-- A node. -/
def node (site : Site) (ts : List Token) : Nat → Reading Node
  | 0 => .error .malformed
  | steps + 1 =>
    match ts with
    | .plain text :: ts => .ok (.plain text, ts)
    | .quoted text :: ts => .ok (.quoted text, ts)
    | .openList :: ts => listItems true [] ts steps
    | .openMap :: ts => mapEntries true [] ts steps
    | .openSequence :: ts => if site = .flow then .error .malformed else items [] ts steps
    | .openMapping :: ts => if site = .flow then .error .malformed else entries [] ts steps
    | .item :: _ => if site = .entry then runItems [] ts steps else .error .malformed
    | ts => .error (faultAt ts)

/-- A node, or an empty one in front of some tokens. -/
def nodeUnless (stop : Token → Bool) (site : Site) (ts : List Token) : Nat → Reading Node
  | 0 => .error .malformed
  | steps + 1 => if ts.head?.any stop then .ok (.empty, ts) else node site ts steps

/-- The value after a key, if there is one. -/
def valueUnless (stop : Token → Bool) (site : Site) (ts : List Token) : Nat → Reading Node
  | 0 => .error .malformed
  | steps + 1 =>
    match ts with
    | .value :: ts => nodeUnless stop site ts steps
    | ts => .ok (.empty, ts)

/-- The items of an indented sequence. -/
def items (found : List Node) (ts : List Token) : Nat → Reading Node
  | 0 => .error .malformed
  | steps + 1 =>
    match ts with
    | .item :: ts =>
      match nodeUnless endsItem .block ts steps with
      | .error fault => .error fault
      | .ok (n, ts) => items (n :: found) ts steps
    | .close :: ts => .ok (.sequence found.reverse, ts)
    | ts => .error (faultAt ts)

/-- The items of a sequence that is not indented. -/
def runItems (found : List Node) (ts : List Token) : Nat → Reading Node
  | 0 => .error .malformed
  | steps + 1 =>
    match ts with
    | .item :: ts =>
      match nodeUnless endsRunItem .block ts steps with
      | .error fault => .error fault
      | .ok (n, ts) => runItems (n :: found) ts steps
    | ts => .ok (.sequence found.reverse, ts)

/-- The entries of an indented mapping. -/
def entries (found : List (Node × Node)) (ts : List Token) : Nat → Reading Node
  | 0 => .error .malformed
  | steps + 1 =>
    match ts with
    | .key :: ts =>
      match nodeUnless endsEntry .entry ts steps with
      | .error fault => .error fault
      | .ok (k, ts) =>
        match valueUnless endsEntry .entry ts steps with
        | .error fault => .error fault
        | .ok (n, ts) => entries ((k, n) :: found) ts steps
    | .close :: ts => .ok (.ofEntries found.reverse, ts)
    | ts => .error (faultAt ts)

/-- The items within square brackets; an item with a colon is a mapping of one
entry. -/
def listItems (first : Bool) (found : List Node) (ts : List Token) : Nat → Reading Node
  | 0 => .error .malformed
  | steps + 1 =>
    match ts with
    | .closeList :: ts => .ok (.sequence found.reverse, ts)
    | ts =>
      match afterComma first ts with
      | .error fault => .error fault
      | .ok (.closeList :: ts) => .ok (.sequence found.reverse, ts)
      | .ok (.key :: ts) =>
        match nodeUnless (fun t => t == .value || endsListItem t) .flow ts steps with
        | .error fault => .error fault
        | .ok (k, ts) =>
          match valueUnless endsListItem .flow ts steps with
          | .error fault => .error fault
          | .ok (n, ts) => listItems false (.ofEntries [(k, n)] :: found) ts steps
      | .ok ts =>
        match node .flow ts steps with
        | .error fault => .error fault
        | .ok (n, ts) => listItems false (n :: found) ts steps

/-- The entries within braces; an entry without a colon has an empty value. -/
def mapEntries (first : Bool) (found : List (Node × Node)) (ts : List Token) : Nat → Reading Node
  | 0 => .error .malformed
  | steps + 1 =>
    match ts with
    | .closeMap :: ts => .ok (.ofEntries found.reverse, ts)
    | ts =>
      match afterComma first ts with
      | .error fault => .error fault
      | .ok (.closeMap :: ts) => .ok (.ofEntries found.reverse, ts)
      | .ok (.key :: ts) =>
        match nodeUnless (fun t => t == .value || endsMapEntry t) .flow ts steps with
        | .error fault => .error fault
        | .ok (k, ts) =>
          match valueUnless endsMapEntry .flow ts steps with
          | .error fault => .error fault
          | .ok (n, ts) => mapEntries false ((k, n) :: found) ts steps
      | .ok ts =>
        match node .flow ts steps with
        | .error fault => .error fault
        | .ok (n, ts) => mapEntries false ((n, .empty) :: found) ts steps

end

/-! ## Documents -/

/-- Whether a document ends with a token. -/
def endsDocument (t : Token) : Bool := t == .documentStart || t == .documentEnd

/-- The only document of some tokens. -/
def document (ts : List Token) : Except Fault Node :=
  let steps := 2 * ts.length + 2
  let content : Reading Node :=
    match ts with
    | [] => .ok (.empty, [])
    | .documentStart :: [] => .ok (.empty, [])
    | .documentStart :: ts => nodeUnless endsDocument .block ts steps
    | ts => node .block ts steps
  match content with
  | .error fault => .error fault
  | .ok (n, rest) =>
    match rest.dropWhile (· == .documentEnd) with
    | [] => .ok n
    | rest => .error (faultAt rest)

/-- The value that a text holds. -/
def read (text : String) : Except Fault Value :=
  match tokens text with
  | .error fault => .error fault
  | .ok ts =>
    match document ts with
    | .error fault => .error fault
    | .ok n => n.read

end Orchestrion.Document.Yaml
