/-
# PageDesign.Json.Repair.Ending -- where a text without its closing quote ends

A text may lack its closing quote, or hold quotes, commas and brackets of its own.  A comma or
bracket in it is therefore weighed by what comes behind it: the text ends there where the next
closing quote ahead belongs to another text, and goes on where that quote closes this one.
-/
import PageDesign.Json.Fence
import PageDesign.Json.Repair.Place

namespace PageDesign.Json.Repair

/-! ## Quotes -/

/-- The quotes around a text, and whether the opening one is missing or doubled. -/
structure Quotes where
  opening : Char := '\x22'
  closing : Char := '\x22'
  missing : Bool := false
  doubled : Bool := false

/-- The quotes of a text that begins with a given quote. -/
def Quotes.of (c : Char) : Quotes :=
  if c == '\x27' then { opening := c, closing := c }
  else if c == '“' then { opening := c, closing := '”' }
  else {}

/-- Whether a quote that `cs` comes after opens the key of another member: what comes next ends
no value, and a colon follows the next of some quotes, or nothing at all. -/
def opensKey (quotes : List Char) (cs : List Char) : Bool :=
  let ahead := skipBlank cs
  if ahead.isEmpty || ahead.head? == some ',' || ahead.head? == some '\x7d' then false
  else
    match seek quotes ahead with
    | [] => false
    | _ :: rest => ((skipBlank rest).head?.map (· == ':')).getD true

/-- Whether the last brace of a text, given with its last character first, is an opening one. -/
def opensBrace (acc : List Char) : Bool :=
  (acc.find? fun c => c == '\x7b' || c == '\x7d') == some '\x7b'

/-! ## Commas and brackets -/

/-- What a comma in a value's text means. -/
inductive CommaRole where
  /-- The text ends before it. -/
  | ends
  /-- It is a part of the text. -/
  | belongs
  /-- It is a part of the text, and so are the commas after it. -/
  | settles
  deriving DecidableEq

/-- The meaning of a comma between `acc` and `cs` in a value's text.  An array or object in front
of the next quote makes it a part of the text, and a member behind it ends the text; `enclosed`
tells that the comma stands in an array or object inside the text, where members do not count and
a closing brace ends the text. -/
def commaRole (enclosed : Bool) (acc cs : List Char) : CommaRole :=
  let ahead := skipBlank cs
  if (ahead.head?.bind closingBracket?).isSome then .belongs
  else if !enclosed && memberAhead ahead then .ends
  else if enclosed && ahead.head? == some '\x7d' then .ends
  else
    match seek quoteMarks cs with
    | d :: rest =>
      let between := cs.take (cs.length - (d :: rest).length)
      if between.any (fun c => (closingBracket? c).isSome) then .belongs
      else if opensKey quoteMarks rest then .ends
      else .belongs
    | [] =>
      if nameAhead ahead || (ahead.head? == some '\x7d' && !opensBrace acc) then .ends
      else .settles

/-- Whether a value's text ends before a brace between `acc` and `cs`. -/
def endsAtBrace (q : Quotes) (acc cs : List Char) : Bool :=
  match seek [q.closing] cs with
  | _ :: rest => opensKey [q.opening] rest
  | [] =>
    let ahead := skipBlank cs
    !(seek [':'] cs).isEmpty ||
      (ahead.length ≤ 1 + (seek ['\x7d'] ahead).length && !opensBrace acc)

/-- Whether a closing brace in front of `cs` is the last one of its payload: the closing fence
comes next, or nothing does and no brace is open in the text. -/
def isOuterBrace (acc cs : List Char) : Bool :=
  (skipBlank cs).take fence.length == fence || (cs.all Text.isBlank && !opensBrace acc)

/-- Whether a text ends before the character `c` between `acc` and `cs`, which is neither its
closing quote nor a comma in a value. -/
def endsBefore (ctx : Context) (q : Quotes) (acc : List Char) (c : Char) (cs : List Char) : Bool :=
  let atEdge := acc.head? != some q.closing
  (q.missing && ctx.place = .key && (c == ':' || Text.isBlank c)) ||
  (q.missing && ctx.place = .item && (c == ']' || c == ',')) ||
  (ctx.place = .value && c == '\x7d' &&
    ((atEdge && endsAtBrace q acc cs) || isOuterBrace acc cs)) ||
  (c == ']' && ctx.inArray && atEdge && (seek [q.closing] cs).isEmpty)

/-- Whether a colon in a quoted key shows that its closing quote is missing: what follows is
a quoted value that ends its member, or holds no quote at all. -/
def colonEndsKey (q : Quotes) (cs : List Char) : Bool :=
  match seek [q.opening] cs with
  | [] => true
  | _ :: rest => ((seekPast [q.closing] rest).head?.map fun c => c == ',' || c == '\x7d').getD false

end PageDesign.Json.Repair
