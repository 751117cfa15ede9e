/-
# PageDesign.Json.Repair.Text -- damaged texts

Texts of a damaged payload may use other quotes, may hold quotes that were not escaped, and
may lack a quote at either end.  Where a text ends is therefore a guess, made at each quote,
comma and bracket from what comes behind it.
-/
import PageDesign.Json.Parser
import PageDesign.Json.Repair.Quotation

namespace PageDesign.Json.Repair

/-! ## Escapes -/

/-- The character of a simple escape. -/
def escaped (c : Char) : Char :=
  if c = 't' then '\t' else if c = 'n' then '\n' else if c = 'r' then '\r'
  else if c = 'b' then Char.ofNat 8 else c

/-- After a backslash that stands for itself, further backslashes and quotes replace it. -/
def absorbTrain (closing : Char) : List Char → List Char → List Char × List Char
  | '\\' :: acc, c :: cs =>
    if c == closing || c == '\\' then absorbTrain closing (c :: acc) cs else ('\\' :: acc, c :: cs)
  | acc, cs => (acc, cs)

/-- The value of digits of base 16. -/
def hexNumber? (ds : List Char) : Option Nat :=
  ds.foldl (fun n c => do return (← n) * 16 + (← hexValue? c)) (some 0)

/-- A numbered escape after its backslash: two digits after `x`, four after `u`.  Two
surrogates make one character, and one alone is not a character. -/
def numbered? : List Char → Option (Option Char × List Char)
  | 'x' :: a :: b :: cs => (hexNumber? [a, b]).map fun n => (some (Char.ofNat n), cs)
  | 'u' :: a :: b :: c :: d :: cs =>
    (hexNumber? [a, b, c, d]).map fun n =>
      if 0xD800 ≤ n ∧ n < 0xDC00 then
        match cs with
        | '\\' :: 'u' :: a :: b :: c :: d :: cs =>
          match hexNumber? [a, b, c, d] with
          | some m =>
            if 0xDC00 ≤ m ∧ m < 0xE000 then
              (some (Char.ofNat (0x10000 + (n - 0xD800) * 0x400 + (m - 0xDC00))), cs)
            else (none, cs)
          | none => (none, cs)
        | cs => (none, cs)
      else if 0xDC00 ≤ n ∧ n < 0xE000 then (none, cs)
      else (some (Char.ofNat n), cs)
  | _ => none

/-! ## Arrays and objects inside a text -/

/-- Whether the bracket `c` between `acc` and `cs` cannot begin an array or object inside a
value's text: a quoted text begins with it, a comma follows the brace, or a key follows it in a
text that has no opening quote. -/
def isLoneBracket (q : Quotes) (acc : List Char) (c : Char) (cs : List Char) : Bool :=
  let ahead := skipBlank cs
  (!q.missing && acc.all Text.isBlank) ||
  (c == '\x7b' && (ahead.head? == some ',' ||
    (q.missing && ahead.head? == some q.closing && memberAhead ahead)))

/-- The bracket that closes an array or object in a value's text, when `c` opens one.  It has to
lie ahead with more text behind it. -/
def containerEnd? (ctx : Context) (q : Quotes) (acc : List Char) (c : Char) (cs : List Char) :
    Option Char := do
  let closing ← if ctx.place = .value then closingBracket? c else none
  if isLoneBracket q acc c cs || ((seek [closing] cs).drop 1).isEmpty then none else some closing

/-- The brackets still to be closed inside a text, after the character `c`. -/
def trackBrackets (pending : List Char) (c : Char) : List Char :=
  match closingBracket? c with
  | some closing => closing :: pending
  | none => if pending.head? == some c then pending.drop 1 else pending

/-! ## Reading a text -/

/-- What has been read of a text. -/
structure Progress where
  /-- The characters, the last one first. -/
  acc : List Char := []
  /-- Whether a quote inside the text has been opened. -/
  quotation : Bool := false
  /-- Whether the commas ahead are known to be a part of the text. -/
  settled : Bool := false
  /-- The brackets inside the text that are still to be closed. -/
  pending : List Char := []

/-- The progress with one more character. -/
def Progress.push (p : Progress) (c : Char) : Progress := { p with acc := c :: p.acc }

/-- How the reading of a text ended: with its closing quote or without. -/
structure Ended where
  /-- The characters, the last one first. -/
  acc : List Char
  closed : Bool
  rest : List Char

/-- The end of a value without an opening quote at a quote `d` that begins the key of another
member: the character before the quote is left behind with it. -/
def Ended.back (acc : List Char) (d : Char) (rest : List Char) : Ended :=
  ⟨acc, false, acc.head?.toList ++ d :: rest⟩

/-- What one step of reading a text comes to. -/
inductive Step where
  /-- The text ends. -/
  | stop (e : Ended)
  /-- It goes on. -/
  | goOn (p : Progress) (rest : List Char)
  /-- It holds what is no character. -/
  | invalid

/-- The step at a closing quote `d` between what has been read and `rest`. -/
def stepQuote (ctx : Context) (q : Quotes) (p : Progress) (d : Char) (rest : List Char) : Step :=
  let included (quotation : Bool) : Step := .goOn { p.push d with quotation } rest
  if q.doubled && rest.head? == some q.closing then .stop ⟨p.acc, true, rest.drop 1⟩
  else if q.missing && ctx.place = .value then
    .stop (if keyBehind q rest then Ended.back p.acc d rest else ⟨p.acc, true, rest⟩)
  else if p.quotation then included false
  else
    match quoteRole ctx q rest with
    | .closes => .stop ⟨p.acc, true, rest⟩
    | .belongs => included false
    | .opensQuotation => included true

/-- The step at a character `c` in an array or object that a text holds.  Neither a quote nor an
escape means anything there. -/
def stepInside (p : Progress) (c : Char) (cs : List Char) : Step :=
  let weighed := p.pending.contains ']' || (skipBlank cs).head? == some '\x7d'
  if c == ',' && weighed && commaRole true p.acc cs == .ends then .stop ⟨p.acc, false, c :: cs⟩
  else .goOn { p.push c with pending := trackBrackets p.pending c } cs

/-- The step over a character `c`, up to the quote or colon that may come next. -/
def stepOver (ctx : Context) (q : Quotes) (p : Progress) (c : Char) (cs : List Char) : Step :=
  let p := p.push c
  match cs with
  | [] => .stop ⟨p.acc, false, []⟩
  | d :: rest =>
    if d == ':' && !q.missing && ctx.place = .key && colonEndsKey q rest then
      .stop ⟨p.acc, false, d :: rest⟩
    else if d == q.closing && c != '\\' then stepQuote ctx q p d rest
    else .goOn p cs

/-- The step at a backslash in front of `cs`.  One that begins no escape stands for itself. -/
def stepEscape (ctx : Context) (q : Quotes) (p : Progress) (cs : List Char) : Step :=
  match cs, numbered? cs with
  | d :: rest, found =>
    if d == q.closing || ['t', 'n', 'r', 'b', '\\'].contains d then
      let (acc, rest) := absorbTrain q.closing (escaped d :: p.acc) rest
      .goOn { p with acc } rest
    else
      match found with
      | some (some x, rest) => .goOn (p.push x) rest
      | some (none, _) => .invalid
      | none => if isQuote d then .goOn (p.push d) rest else stepOver ctx q p '\\' cs
  | [], _ => stepOver ctx q p '\\' cs

/-- The step at a character `c` that is not inside an array or object.  A quote met here closes the
text: one that may belong to it is weighed by the step over the character before (`stepOver`).  A
comma or closing brace of a value, and an array or object in it, leave the quote behind them
unweighed, so that it closes the text. -/
def stepOutside (ctx : Context) (q : Quotes) (p : Progress) (c : Char) (cs : List Char) : Step :=
  let comma : CommaRole :=
    if ctx.place = .value && c == ',' && !p.settled then commaRole false p.acc cs else .belongs
  if c == q.closing then .stop ⟨p.acc, true, cs⟩
  else if comma == .ends || endsBefore ctx q p.acc c cs then .stop ⟨p.acc, false, c :: cs⟩
  else
    let p := if comma == .settles then { p with settled := true } else p
    if ctx.place = .value && (c == ',' || c == '\x7d') then .goOn (p.push c) cs
    else
      match containerEnd? ctx q p.acc c cs with
      | some closing => .goOn { p.push c with pending := [closing] } cs
      | none => if c == '\\' then stepEscape ctx q p cs else stepOver ctx q p c cs

/-- Reads a text after its opening quote, step by step. -/
def readText (ctx : Context) (q : Quotes) : Nat → Progress → List Char → Option Ended
  | 0, _, _ => none
  | _ + 1, p, [] => some ⟨p.acc, false, []⟩
  | fuel + 1, p, c :: cs =>
    match if p.pending.isEmpty then stepOutside ctx q p c cs else stepInside p c cs with
    | .stop e => some e
    | .goOn p rest => readText ctx q fuel p rest
    | .invalid => none

/-- A finished text, without blanks at its end where its quotes were incomplete or it ends in
a line break. -/
def finish (q : Quotes) (e : Ended) : List Char :=
  if q.missing || !e.closed || e.acc.head? == some '\n' then
    (e.acc.dropWhile Text.isBlank).reverse
  else e.acc.reverse

/-- A text of which something has been read already.  A key without quotes that nothing
sensible follows counts as empty. -/
def readRest (ctx : Context) (q : Quotes) (p : Progress) (cs : List Char) :
    Option (Json × List Char) := do
  let e ← readText ctx q (cs.length + 1) p cs
  let left := skipBlank e.rest
  let atBlank := !e.closed && (e.rest.head?.map Text.isBlank).getD false
  if q.missing && ctx.place = .key && atBlank &&
      !(left.head? == some ':' || left.head? == some ',') then
    return (.str "", left)
  return (.str (String.ofList (finish q e)), e.rest)

/-! ## The start of a text -/

/-- A text after its double quote that is sound and fits its place: it has no backslash and no
line break, and what follows is what its place asks for. -/
def soundText? (ctx : Context) (cs : List Char) : Option (Json × List Char) :=
  let stops (c : Char) : Bool := c == '\x22' || c == '\\' || c == '\n' || c == '\r'
  match cs.dropWhile (!stops ·) with
  | '\x22' :: rest =>
    let next := skipBlank rest
    let fits :=
      match ctx.place with
      | .key => next.head? == some ':'
      | .value =>
        let ahead := skipBlank (next.drop 1)
        next.head? == some '\x7d' || (next.head? == some ',' &&
          ((ahead.head?.map isQuote).getD false || nameAhead ahead))
      | .item => next.head? == some ',' || next.head? == some ']'
    if fits then some (.str (String.ofList (cs.takeWhile (!stops ·))), rest) else none
  | _ => none

/-- Whether an empty text may stand in front of a character. -/
def endsEmpty (ctx : Context) (c : Char) : Bool :=
  match ctx.place with
  | .key => c == ':'
  | .value => c == ',' || c == '\x7d'
  | .item => c == ',' || c == ']'

/-- A text that begins with the same quote twice, of which the second is `d`: an empty text, a
text in doubled quotes, or a text with one quote too many. -/
def readTwiceQuoted (ctx : Context) (q : Quotes) (d : Char) (rest : List Char) :
    Option (Json × List Char) :=
  let ahead := skipBlank rest
  let next := ahead.head?
  if (rest.head?.map (endsEmpty ctx)).getD false then some (.str "", rest)
  else if rest.head? == some q.opening then some (.str "", d :: rest)
  else if ((seek [q.closing] rest).drop 1).head? == some q.closing then
    readRest ctx { q with doubled := true } {} rest
  else if next == some q.opening || (next.bind closingBracket?).isSome then some (.str "", rest)
  else if (next.map isQuote).getD false || memberAhead ahead then
    match quoteRole ctx q rest with
    | .closes => readRest ctx q {} (d :: rest)
    | .belongs => readRest ctx q { acc := [d] } rest
    | .opensQuotation => readRest ctx q { acc := [d], quotation := true } rest
  else if (next.map [',', ']', '\x7d'].contains).getD false then readRest ctx q {} (d :: rest)
  else readRest ctx q {} rest

/-- The text from the next quote, letter or digit on, at which a text may begin. -/
def seekStart (cs : List Char) : List Char :=
  cs.dropWhile fun c => !(isQuote c || Text.isAlphanumeric c)

/-- A text at the front, with its quote if it has one.  Anything before a quote, a letter or a
digit is passed over, and a comment counts as empty text.  Where no key is wanted, a literal is
taken for what it says. -/
def readQuoted (ctx : Context) (cs : List Char) : Option (Json × List Char) :=
  match skipRemark? (some ctx) cs, seekStart cs with
  | some rest, _ => some (.str "", rest)
  | none, [] => some (.str "", [])
  | none, c :: cs =>
    if isQuote c then
      let q := Quotes.of c
      match (if c == '\x22' then soundText? ctx cs else none), cs with
      | some sound, _ => some sound
      | none, d :: rest =>
        if d == q.opening then readTwiceQuoted ctx q d rest else readRest ctx q {} cs
      | none, [] => readRest ctx q {} []
    else
      match (if ctx.place = .key then none else literal? (c :: cs)) with
      | some found => some found
      | none => readRest ctx { missing := true } {} (c :: cs)

/-- What a text holds that consists of a code fence with a payload of its own: the payload, from
after the opening fence on. -/
def fencedPayload? (ctx : Context) (cs : List Char) : Option (List Char) :=
  match skipRemark? (some ctx) cs, seekStart cs with
  | none, c :: cs => do
    guard (isQuote c && !(c == '\x22' && (soundText? ctx cs).isSome))
    let payload ← (fence ++ "json".toList).isPrefixOf? cs
    guard ((seek ['\x60'] payload).take fence.length == fence)
    return payload
  | _, _ => none

end PageDesign.Json.Repair
