/-
# PageDesign.Json.Repair.Quotation -- quotes inside a text

Texts may hold quotes that were not escaped.  A closing quote closes its text where the payload
goes on in a sensible way behind it; otherwise it belongs to the text, and it may open a
quotation, which the next quote ends.
-/
import PageDesign.Json.Repair.Ending

namespace PageDesign.Json.Repair

/-! ## Looking behind a quote -/

/-- The text ahead from the next quote or the next character that may close a place, with
the characters passed over.  A comma closes a value only while no letter has come. -/
def scanAhead (ctx : Context) (q : Quotes) (comma : Bool) :
    List Char → List Char → List Char × List Char
  | passed, [] => (passed, [])
  | passed, c :: cs =>
    if c == q.opening || c == q.closing then (passed, c :: cs)
    else
      let comma := comma && !Text.isLetter c
      if (ctx.inKey && (c == ':' || c == '\x7d')) || (ctx.inValue && c == '\x7d') ||
          (ctx.inArray && (c == ']' || c == ',')) ||
          (comma && ctx.place = .value && c == ',') then (passed, c :: cs)
      else scanAhead ctx q comma (c :: passed) cs

/-- Whether a colon comes before the next comma, bracket or quote.  `last` is the character in
front of the text. -/
def colonAhead (closing last : Char) : List Char → Bool
  | [] => false
  | c :: cs =>
    if c == ':' then true
    else if c == ',' || c == ']' || c == '\x7d' || (c == closing && last != '\\') then false
    else colonAhead closing c cs

/-- Whether the quotes up to the end of an array come in pairs. -/
def pairedQuotes (closing : Char) : Nat → List Char → Bool
  | 0, _ => false
  | fuel + 1, cs =>
    match seek [closing, ']'] cs with
    | [] => false
    | c :: rest =>
      if c != closing then false
      else
        match seek [closing, ']'] rest with
        | [] => true
        | d :: rest => if d == closing then pairedQuotes closing fuel rest else true

/-! ## The meaning of a quote -/

/-- What a closing quote inside a text means. -/
inductive QuoteRole where
  | closes
  | belongs
  | opensQuotation
  deriving DecidableEq

/-- The meaning of a quote in a value, when `cs` comes after the next quote and `gap` tells
that there is nothing but blanks between the two. -/
def quoteRoleInValue (q : Quotes) (gap : Bool) (cs : List Char) : QuoteRole :=
  let ahead := skipBlank cs
  if ahead.head? == some ',' && memberAhead (skipBlank (ahead.drop 1)) then .belongs
  else if gap then .closes
  else
    let rest := (seek [q.closing] cs).drop 1
    if colonAhead q.closing q.closing rest then .closes else .opensQuotation

/-- Whether a quote with `cs` behind it closes its text or belongs to it. -/
def quoteRole (ctx : Context) (q : Quotes) (cs : List Char) : QuoteRole :=
  match scanAhead ctx q true [] cs with
  | (_, []) => .closes
  | (passed, c :: rest) =>
    if c == ',' && ctx.place = .value then
      match (seekPast [q.closing] rest).head? with
      | some d => if d == '\x7d' || d == ',' then .belongs else .closes
      | none => .closes
    else if c == q.closing && passed.head? != some '\\' then
      let gap := passed.all Text.isBlank
      match ctx.place with
      | .value => quoteRoleInValue q gap rest
      | .item =>
        if !gap && pairedQuotes q.closing (rest.length + 1) rest then .opensQuotation else .closes
      | .key => if gap then .closes else .belongs
    else .closes

/-- Whether the key of another member lies between a quote and the next one, with `cs` behind
the first. -/
def keyBehind (q : Quotes) (cs : List Char) : Bool :=
  let quoted := cs.dropWhile fun c => c != q.closing && c != q.opening
  (skipBlank (quoted.drop 1)).head? == some ':'

end PageDesign.Json.Repair
