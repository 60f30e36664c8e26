import Artboard.Settings.Basic
import Artboard.Text.Blank

/-!
# Reading markup

A reader of tags goes through a text one character at a time. It knows

- comments, which end at the first terminator behind their start;
- start tags, with quoted values and, in JSX, with expressions between braces;
- tags that close themselves, and end tags;
- everything else as text.

Text is **well formed** (`isWellFormed`) if it can be read to its end, its tags are properly nested,
and no character that could start or end a tag, a value or an expression stands where it is not read
as such.
-/

namespace Artboard.Markup

/-! ## Tokens -/

/-- The value of an attribute as it stands in a tag. -/
inductive Written where
  | quoted (value : List Char)
  | braced (expression : List Char)
  | bare
deriving Repr, DecidableEq

/-- A name and the attributes behind it, in order. -/
structure Tag where
  name : List Char
  attributes : List (List Char × Written) := []
deriving Repr, DecidableEq

def Tag.add (t : Tag) (key : List Char) (value : Written) : Tag :=
  { t with attributes := t.attributes ++ [(key, value)] }

inductive Token where
  | char (c : Char)
  | comment (text : List Char)
  | opening (tag : Tag)
  /-- A tag that closes itself. -/
  | single (tag : Tag)
  | closing (name : List Char)
deriving Repr, DecidableEq

/-! ## Positions -/

/-- The braces that are open in an expression, and whether a string is. A string ends at the next
quote. -/
structure Nesting where
  depth : Nat := 0
  inString : Bool := false
deriving Repr, DecidableEq

/-- Where a reader is inside a start tag. -/
inductive Place where
  | inName
  | between
  | inKey (key : List Char)
  | equals (key : List Char)
  | quoted (key value : List Char)
  | braced (key expression : List Char) (nesting : Nesting)
  /-- Behind the value of an attribute. -/
  | behind
  | slash
deriving Repr, DecidableEq

/-- Where a reader is, with what it has read of a token. -/
inductive Position where
  | text
  /-- Behind what may be the start of a tag or of a comment. -/
  | start (seen : List Char)
  | comment (seen : List Char)
  | tag (tag : Tag) (place : Place)
  | ending (name : List Char)
deriving Repr, DecidableEq

/-! ## Steps -/

def commentStart : Mode → List Char
  | .html => ['<', '!', '-', '-']
  | .jsx => ['\x7b', '/', '*']

def commentEnd : Mode → List Char
  | .html => ['-', '-', '>']
  | .jsx => ['*', '/', '\x7d']

/-- A character of a name that is not its first. -/
def isNameChar (c : Char) : Bool := c.isAlphanum || c == '-'

/-- The nesting behind one more character, unless that is the brace that ends the expression. -/
def Nesting.step (n : Nesting) (c : Char) : Option Nesting :=
  if n.inString then some { n with inString := c != '"' }
  else if c = '"' then some { n with inString := true }
  else if c = '\x7b' then some { n with depth := n.depth + 1 }
  else if c = '\x7d' then if n.depth = 0 then none else some { n with depth := n.depth - 1 }
  else some n

/-- What may follow the name of a tag, the name of an attribute, or a value. -/
def boundary (t : Tag) (c : Char) : Option (List Token × Position) :=
  if Text.isBlank c then some ([], .tag t .between)
  else if c = '/' then some ([], .tag t .slash)
  else if c = '>' then some ([.opening t], .text)
  else none

def Place.step (mode : Mode) (t : Tag) (c : Char) : Place → Option (List Token × Position)
  | .inName =>
    if isNameChar c then some ([], .tag { t with name := t.name ++ [c] } .inName) else boundary t c
  | .between => if c.isAlpha then some ([], .tag t (.inKey [c])) else boundary t c
  | .inKey key =>
    if isNameChar c then some ([], .tag t (.inKey (key ++ [c])))
    else if c = '=' then some ([], .tag t (.equals key))
    else boundary (t.add key .bare) c
  | .equals key =>
    if c = '"' then some ([], .tag t (.quoted key []))
    else if mode.isJsx && c == '\x7b' then some ([], .tag t (.braced key [] {}))
    else none
  | .quoted key value =>
    if c = '"' then some ([], .tag (t.add key (.quoted value)) .behind)
    else some ([], .tag t (.quoted key (value ++ [c])))
  | .braced key expression nesting =>
    match nesting.step c with
    | some nesting => some ([], .tag t (.braced key (expression ++ [c]) nesting))
    | none => some ([], .tag (t.add key (.braced expression)) .behind)
  | .behind => boundary t c
  | .slash => if c = '>' then some ([.single t], .text) else none

/-- The tokens that end with a character, and the position behind it; nothing if the text cannot be
read. -/
def Position.step (mode : Mode) (c : Char) : Position → Option (List Token × Position)
  | .text =>
    if c = '<' || mode.isJsx && c == '\x7b' then some ([], .start [c]) else some ([.char c], .text)
  | .start seen =>
    if seen ++ [c] = commentStart mode then some ([], .comment [])
    else if (seen ++ [c]).isPrefixOf (commentStart mode) then some ([], .start (seen ++ [c]))
    else if seen ≠ ['<'] then none
    else if c = '/' then some ([], .ending [])
    else if c.isAlpha then some ([], .tag { name := [c] } .inName)
    else none
  | .comment seen =>
    if (commentEnd mode).isSuffixOf (seen ++ [c]) then
      some ([.comment (seen.take (seen.length + 1 - (commentEnd mode).length))], .text)
    else some ([], .comment (seen ++ [c]))
  | .tag t place => place.step mode t c
  | .ending name =>
    if isNameChar c then some ([], .ending (name ++ [c]))
    else if c = '>' then some ([.closing name], .text)
    else none

/-! ## Whole texts -/

/-- The tokens of some characters, and the position behind them. -/
def Position.run (mode : Mode) : Position → List Char → Option (List Token × Position)
  | p, [] => some ([], p)
  | p, c :: rest => do
    let (tokens, p) ← p.step mode c
    let (others, p) ← p.run mode rest
    pure (tokens ++ others, p)

/-- The tokens of a text that ends outside all tags and comments. -/
def read? (mode : Mode) (text : List Char) : Option (List Token) :=
  match Position.text.run mode text with
  | some (tokens, .text) => some tokens
  | _ => none

/-- Whether every start tag has an end tag of its name, in proper nesting. The tags that are open
already are named from the innermost on. -/
def closes (names : List (List Char)) : List Token → Bool
  | [] => names.isEmpty
  | .opening t :: rest => closes (t.name :: names) rest
  | .closing name :: rest =>
    match names with
    | [] => false
    | innermost :: outer => innermost == name && closes outer rest
  | .char _ :: rest | .comment _ :: rest | .single _ :: rest => closes names rest

def Written.isClean : Written → Bool
  | .quoted value => value.all fun c => c != '"' && c != '<' && c != '>'
  | .braced _ | .bare => true

/-- Whether a token holds no character in text or in a quoted value that belongs to tags, or to
expressions. -/
def Token.isClean (mode : Mode) : Token → Bool
  | .char c => c != '<' && c != '>' && !(mode.isJsx && (c == '\x7b' || c == '\x7d'))
  | .opening t | .single t => t.attributes.all fun (_, value) => value.isClean
  | .comment _ | .closing _ => true

def isWellFormed (mode : Mode) (text : List Char) : Bool :=
  match read? mode text with
  | some tokens => closes [] tokens && tokens.all (Token.isClean mode)
  | none => false

example : isWellFormed .html "<p class=\"a\">x<!-- </p> --><br/></p>".toList = true := by decide

example : isWellFormed .html "<p><b>x</p></b>".toList = false := by decide

example :
    isWellFormed .jsx "<A b=\x7b\x7bc: \"\x7d\"\x7d\x7d /> \x7b/* > */\x7d".toList = true := by
  decide

example : isWellFormed .jsx "<p>\x7bx\x7d</p>".toList = false := by decide

end Artboard.Markup
