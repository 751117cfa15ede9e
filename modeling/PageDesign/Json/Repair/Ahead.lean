/-
# PageDesign.Json.Repair.Ahead -- looking ahead in a damaged text

The reader of damaged JSON decides by what comes next: the next character of some kind that no
backslash hides, a key with its colon, a literal, a member.  Here are the classes of characters
it tells apart and these steps of looking ahead.
-/
import PageDesign.Json.Basic
import PageDesign.Text.Blank
import PageDesign.Text.Letter

namespace PageDesign.Json.Repair

/-! ## Characters -/

/-- The characters of a name that needs no quotes. -/
def isNameChar (c : Char) : Bool := Text.isAlphanumeric c || c == '_' || c == '-'

/-- Characters that open a text. -/
def quoteMarks : List Char := ['\x22', '\x27', '“', '”']

/-- Whether a character opens a text. -/
def isQuote (c : Char) : Bool := quoteMarks.contains c

/-- The bracket that closes what another one opens. -/
def closingBracket? (c : Char) : Option Char :=
  if c == '\x7b' then some '\x7d' else if c == '[' then some ']' else none

/-! ## Looking ahead -/

/-- The text without blanks in front. -/
def skipBlank (cs : List Char) : List Char := cs.dropWhile Text.isBlank

/-- The text from the first of some characters on, not counting those behind an odd number of
backslashes.  `hidden` tells that the number of backslashes in front is odd. -/
def seekFrom (wanted : List Char) (hidden : Bool) : List Char → List Char
  | [] => []
  | c :: cs =>
    if c == '\\' then seekFrom wanted (!hidden) cs
    else if wanted.contains c && !hidden then c :: cs
    else seekFrom wanted false cs

/-- The text from the first of some characters on. -/
def seek (wanted : List Char) (cs : List Char) : List Char := seekFrom wanted false cs

/-- The text after the first of some characters, and after the blanks that follow. -/
def seekPast (wanted : List Char) (cs : List Char) : List Char :=
  skipBlank ((seek wanted cs).drop 1)

/-- Whether a text between quotes, of which the first is `quote`, is followed by a colon. -/
def colonAfter (quote : Char) (cs : List Char) : Bool :=
  let closing := if quote == '“' then '”' else quote
  (seekPast [closing] cs).head? == some ':'

/-- Whether a key in quotes and its colon come next. -/
def quotedKeyAhead : List Char → Bool
  | [] => false
  | c :: cs => isQuote c && colonAfter c cs

/-- The text after a name without quotes and its colon. -/
def afterName? : List Char → Option (List Char)
  | [] => none
  | c :: cs =>
    if Text.isLetter c || c == '_' then
      match skipBlank (cs.dropWhile isNameChar) with
      | ':' :: rest => some rest
      | _ => none
    else none

/-- Whether a name without quotes and its colon come next. -/
def nameAhead (cs : List Char) : Bool := (afterName? cs).isSome

/-! ## Words -/

/-- Literals, in any case. -/
def literals : List (String × Json) :=
  [("true", .bool true), ("false", .bool false), ("null", .null), ("none", .null)]

/-- Whether a literal may stand in front of a text. -/
def endsLiteral : List Char → Bool
  | [] => true
  | c :: _ => Text.isBlank c || [',', ']', '\x7d', ')'].contains c

/-- A literal at the front of a text. -/
def literal? (cs : List Char) : Option (Json × List Char) :=
  literals.findSome? fun (name, v) =>
    let n := name.toList
    let rest := cs.drop n.length
    if (cs.take n.length).map Char.toLower = n && endsLiteral rest then some (v, rest) else none

/-- Whether a value that is no word comes next: a quote, a bracket, a number or a literal. -/
def valueAhead (cs : List Char) : Bool :=
  (cs.head?.map fun c =>
    isQuote c || (closingBracket? c).isSome || c == '-' || c == '.' || Text.isDigit c).getD false ||
  (literal? cs).isSome

/-- Whether a member comes next: a key in quotes and its colon, or a name, its colon and a
value that is no word. -/
def memberAhead : List Char → Bool
  | [] => false
  | c :: cs =>
    if isQuote c then colonAfter c cs
    else ((afterName? (c :: cs)).map fun rest => valueAhead (skipBlank rest)).getD false

end PageDesign.Json.Repair
