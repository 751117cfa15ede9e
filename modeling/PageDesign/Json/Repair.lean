/-
# PageDesign.Json.Repair -- reading damaged JSON

Payloads that come from a clipboard may be slightly malformed.  `repairList` reads what it can:
trailing, doubled and missing commas, single quotes, names and words without quotes, missing
closing brackets and quotes, comments, literals in any case, raw control characters, leading
zeros and missing values (which become empty text).

Outside all places a sound array or object is read as it is; the rest is pieced together by a
reader that knows its place and looks ahead.  Text that goes on after the first value is
searched for more values; a value of the same shape as the one before it replaces it, and
several values make an array.

The result has only integers of 64 bits: larger ones become double precision numbers, and a
number that is not finite makes the repair fail.
-/
import PageDesign.Json.Repair.Number

namespace PageDesign.Json.Repair

/-! ## Pieces of values -/

/-- A sound array or object in the loose dialect, and what follows it. -/
def readSound (cs : List Char) : Option (Json × List Char) := parseAhead .loose cs

/-- Whether a value is an empty text, an empty array or an empty object. -/
def isHollow : Json → Bool
  | .str s => s.isEmpty
  | .arr vs => vs.isEmpty
  | .obj ms => ms.isEmpty
  | _ => false

/-- Whether an item is an ellipsis without quotes, which `before` begins with and `after`
follows. -/
def isEllipsis (v : Json) (before after : List Char) : Bool :=
  match v with
  | .str s => s == "..." && (before.drop (before.length - after.length - 1)).head? == some '.'
  | _ => false

/-- Whether a value is an array. -/
def isArray : Json → Bool
  | .arr _ => true
  | _ => false

/-- Whether a value is an array or an object. -/
def isContainer : Json → Bool
  | .arr _ => true
  | .obj _ => true
  | _ => false

/-- Whether an array, of which the items read so far are given, may hold the members of an
object that lacks its brace.  The array of a member does so only as its first item or when it
has an array or object already. -/
def takesMembers (ctx : Context) (items : List Json) : Bool :=
  items.isEmpty || ctx.outer != some .value || items.any isContainer

/-- Items in rows of a given length. -/
def rowsFrom (n : Nat) : Nat → List Json → List Json
  | 0, _ => []
  | _ + 1, [] => []
  | fuel + 1, vs => .arr (vs.take n) :: rowsFrom n fuel (vs.drop n)

/-- The common length of the arrays among some items. -/
def commonLength? (vs : List Json) : Option Nat :=
  match vs.filterMap fun v => match v with | .arr ws => some ws.length | _ => none with
  | [] => none
  | n :: ns => if n != 0 && ns.all (· == n) then some n else none

/-- An array that goes on with the items of a second one.  One that has rows of one length gets
the second as a row, or its rows, and the items after the last row become rows where they fill
them; others get the items, or the items of the only one. -/
def continueItems (vs ws : List Json) : List Json :=
  match commonLength? vs with
  | none =>
    match ws with
    | [.arr us] => vs ++ us
    | _ => vs ++ ws
  | some n =>
    let tail := (vs.reverse.takeWhile (!isArray ·)).reverse
    let tail := if tail.length % n == 0 then rowsFrom n tail.length tail else tail
    let added := if ws.isEmpty || ws.all isArray then ws else [.arr ws]
    (vs.reverse.dropWhile (!isArray ·)).reverse ++ tail ++ added

/-- The items of the last member, if it has a name and its value is an array. -/
def lastItems? (ms : Members) : Option (String × List Json) :=
  match ms.getLast? with
  | some (key, .arr vs) => if key.isEmpty then none else some (key, vs)
  | _ => none

/-- Whether parentheses, of which the text after the first is given, hold a comma of their own.
`depth` counts the brackets that are open inside, and `quote` is the quote that is open. -/
def hasComma : Nat → Nat → Option Char → List Char → Bool
  | 0, _, _, _ => false
  | _ + 1, _, _, [] => false
  | fuel + 1, depth, some quote, c :: cs =>
    if c == '\\' then hasComma fuel depth (some quote) (cs.drop 1)
    else hasComma fuel depth (if c == quote then none else some quote) cs
  | fuel + 1, depth, none, c :: cs =>
    if c == '\x22' || c == '\x27' then hasComma fuel depth (some c) cs
    else if c == '(' || c == '[' || c == '\x7b' then hasComma fuel (depth + 1) none cs
    else if c == ')' && depth == 0 then false
    else if c == ')' || c == ']' || c == '\x7d' then hasComma fuel (depth - 1) none cs
    else (c == ',' && depth == 0) || hasComma fuel depth none cs

/-- What stands in parentheses: a single item without a comma is itself, and others make an
array. -/
def enclosed (comma : Bool) : List Json → Json
  | [v] => if comma then .arr [v] else v
  | vs => .arr vs

/-- Whether the last character that is no blank is a comma.  `comma` answers for what comes
before the text. -/
def endsInComma (comma : Bool) (cs : List Char) : Bool :=
  ((cs.reverse.find? (!Text.isBlank ·)).map (· == ',')).getD comma

/-- A text without the backslashes in front of a quote. -/
def unescapeQuote (quote : Char) : List Char → List Char
  | [] => []
  | c :: cs =>
    let rest := unescapeQuote quote cs
    if c == '\\' && cs.head? == some quote then rest else c :: rest

/-- The body of an object, with all that comes after it, without the escapes of the quote that
its first key begins with. -/
def unescapeBody (cs : List Char) : List Char :=
  match skipBlank cs with
  | '\\' :: quote :: _ => if isQuote quote then unescapeQuote quote cs else cs
  | _ => cs

/-- What has been read of an object. -/
structure Body where
  members : Members := []
  /-- Whether a comma is the last thing read. -/
  comma : Bool := false
  /-- Whether the value of a member is an object that turned out to list items. -/
  listing : Bool := false

/-- The place of the next value.  After a value that lists items in braces, values are read as
keys are. -/
def Body.valuePlace (b : Body) (ctx : Option Context) : Context :=
  let here := Context.within ctx .value
  if b.listing then Context.within (some here) .key else here

/-- Whether a text holds a colon outside its quotes and comments.  `quote` is the quote that
is open. -/
def hasColon : Nat → Option Char → List Char → Bool
  | 0, _, _ => false
  | _ + 1, _, [] => false
  | fuel + 1, some quote, c :: cs =>
    if c == '\\' then hasColon fuel (some quote) (cs.drop 1)
    else hasColon fuel (if c == quote then none else some quote) cs
  | fuel + 1, none, c :: cs =>
    match skipComment? false (c :: cs) with
    | some rest => hasColon fuel none rest
    | none =>
      c == ':' || hasColon fuel (if c == '\x22' || c == '\x27' then some c else none) cs

/-- Whether a body without members, which ends where `stop` begins, lists something: it holds
more than a character and more than blanks and comments, and there is no colon up to the
character after its brace. -/
def listsItems (ctx : Option Context) (cs stop : List Char) : Bool :=
  let size := cs.length - stop.length
  let seen := cs.take (size + 2)
  1 < size && stop.length < (skipFiller ctx cs).length && !hasColon (seen.length + 1) none seen

/-! ## Values -/

mutual

/-- The next value inside a place, passing over everything that begins none.  At the end and
after a comment there is empty text. -/
def readValue (ctx : Context) : Nat → List Char → Option (Json × List Char)
  | 0, _ => none
  | _ + 1, [] => some (.str "", [])
  | fuel + 1, c :: cs =>
    if c == '\x7b' then readObject (some ctx) fuel cs
    else if c == '[' then
      (readItems (Context.within (some ctx) .item) ']' fuel [] cs).map
        fun (vs, rest) => (.arr vs, rest)
    else if c == '(' then
      (readItems (Context.within (some ctx) .item) ')' fuel [] cs).map
        fun (vs, rest) => (enclosed (hasComma (cs.length + 1) 0 none cs) vs, rest)
    else if isQuote c || Text.isLetter c then readString ctx fuel (c :: cs)
    else if Text.isDigit c || c == '-' || c == '.' then readNumber ctx (c :: cs)
    else
      match skipRemark? (some ctx) (c :: cs) with
      | some rest => some (.str "", rest)
      | none => readValue ctx fuel cs

/-- A text, or the payload in a code fence that makes up a text. -/
def readString (ctx : Context) : Nat → List Char → Option (Json × List Char)
  | 0, _ => none
  | fuel + 1, cs =>
    match fencedPayload? ctx cs with
    | some payload => readValue ctx fuel payload
    | none => readQuoted ctx cs

/-- An object after its brace.  One without members whose body lists something is an array.  One
that begins with an escaped quote is read without the escapes of that quote, and in an array one
brace too many is taken away with it. -/
def readObject (ctx : Option Context) : Nat → List Char → Option (Json × List Char)
  | 0, _ => none
  | fuel + 1, cs =>
    let cs := unescapeBody cs
    match readMembers ctx fuel {} cs with
    | none => none
    | some (ms, atKey, stop) =>
      let ctx := if atKey then some (Context.within ctx .key) else ctx
      if ms.isEmpty && listsItems ctx cs stop then
        (readItems (Context.within ctx .item) ']' fuel [] cs).map fun (vs, rest) =>
          (.arr vs, rest)
      else
        let rest := stop.drop 1
        let inItems := (ctx.map (·.place)) == some .item
        some (.obj ms, if inItems && rest.head? == some '\x7d' then rest.drop 1 else rest)

/-- The members up to a closing brace, following those already read; the flag tells that a key
without a value is the last thing read.  The brace stays, and where it is missing it is put in:
before a closing bracket in an array, and before a key in an array that is repeated, unless it
stands in quotes between a comma and a colon. -/
def readMembers (ctx : Option Context) :
    Nat → Body → List Char → Option (Members × Bool × List Char)
  | 0, _, _ => none
  | fuel + 1, b, cs =>
    match skipSeparators ctx cs with
    | [] => some (b.members, false, [])
    | c :: rest =>
      if c == '\x7d' then some (b.members, false, c :: rest)
      else
        let begin := if c == ':' then rest else c :: rest
        let inKey := Context.within ctx .key
        match readKey inKey fuel b.members begin begin with
        | none => none
        | some (ms, key, start, rest) =>
          let afterComma := endsInComma b.comma (cs.take (cs.length - start.length))
          -- A key that is there already begins another object.
          if inArray ctx && (ms.lookup key).isSome && !(afterComma && quotedKeyAhead start) then
            some (ms, false, '\x7d' :: '\x7b' :: start)
          else
            match skipFiller (some inKey) rest with
            | [] => some (ms, true, [])
            | c :: rest =>
              if c == '\x7d' then some (ms, true, c :: rest)
              else
                -- The colon is `c`, or what stands in its place.
                let here := b.valuePlace ctx
                let body := skipFiller (some here) rest
                let found :=
                  if body.head? == some ',' || body.head? == some '\x7d' then some (.str "", body)
                  else readValue here fuel body
                match found with
                | none => none
                | some (v, rest) =>
                  let stray := (rest.head?.map [',', '\x27', '\x22'].contains).getD false
                  let rest := if stray then rest.drop 1 else rest
                  let ms := Keyed.put key v ms
                  if rest.head? == some ']' && inArray ctx then some (ms, false, '\x7d' :: rest)
                  else
                    let comma := endsInComma false (body.take (body.length - rest.length))
                    let listing := b.listing || (body.head? == some '\x7b' && isArray v)
                    readMembers ctx fuel ⟨ms, comma, listing⟩ rest

/-- The next key, with the text at which it starts.  An empty one counts only in front of a
colon or closing brace.  An array here goes on with the array of the last member. -/
def readKey (ctx : Context) : Nat → Members → List Char → List Char →
    Option (Members × String × List Char × List Char)
  | 0, _, _, _ => none
  | fuel + 1, ms, start, cs =>
    if cs.isEmpty then some (ms, "", start, cs)
    else
      match (if cs.head? == some '[' then lastItems? ms else none) with
      | some (key, vs) =>
        match readItems (Context.within (some ctx) .item) ']' fuel [] (cs.drop 1) with
        | none => none
        | some (ws, rest) =>
          let rest := skipBlank rest
          let rest := if rest.head? == some ',' then skipBlank (rest.drop 1) else rest
          readKey ctx fuel (Keyed.put key (.arr (continueItems vs ws)) ms) cs rest
      | none =>
        match readString ctx fuel cs with
        | some (.str key, rest) =>
          let rest := if key.isEmpty then skipBlank rest else rest
          if !key.isEmpty || rest.head? == some ':' || rest.head? == some '\x7d' then
            some (ms, key, cs, rest)
          else readKey ctx fuel ms cs rest
        | _ => none

/-- The items of an array up to its closing bracket or a brace, which is taken away, following
those already read, the last one first.  A text with a colon behind it is a key: it begins an
object that lacks its brace, or ends the array. -/
def readItems (ctx : Context) (closing : Char) :
    Nat → List Json → List Char → Option (List Json × List Char)
  | 0, _, _ => none
  | fuel + 1, acc, cs =>
    match skipSeparators (some ctx) cs with
    | [] => some (acc.reverse, [])
    | c :: cs =>
      let isKey := isQuote c && (seekPast [c] cs).head? == some ':'
      if c == closing || c == '\x7d' then some (acc.reverse, cs)
      else if isKey && !takesMembers ctx acc then some (acc.reverse, c :: cs)
      else
        let found :=
          if isKey then readObject (some ctx) fuel (c :: cs)
          else if isQuote c then readString ctx fuel (c :: cs)
          else readValue ctx fuel (c :: cs)
        match found with
        | none => none
        | some (v, rest) =>
          let ended := rest.head? == some closing || rest.head? == some ','
          let dropped := isHollow v && !ended
          let acc := if dropped || isEllipsis v (c :: cs) rest then acc else v :: acc
          let rest := if dropped then rest.drop 1 else rest
          readItems ctx closing fuel acc (rest.dropWhile fun d => d == ',' || Text.isBlank d)

end

/-! ## Outside all places -/

/-- The text from the first bracket on that is not in a comment. -/
def seekOpening : Nat → List Char → List Char
  | 0, cs => cs
  | _ + 1, [] => []
  | fuel + 1, c :: cs =>
    if (closingBracket? c).isSome then c :: cs
    else seekOpening fuel ((skipRemark? none (c :: cs)).getD cs)

/-- Steps that are enough to read a text. -/
def stepsFor (cs : List Char) : Nat := 8 * cs.length + 16

/-- The members of an outer object with those that follow its brace after a comma, and whether
there is such a comma. -/
def readFurther : Nat → Members → List Char → Option (Members × Bool × List Char)
  | 0, _, _ => none
  | fuel + 1, ms, cs =>
    match skipBlank cs with
    | ',' :: more =>
      let more := skipBlank more
      if (more.head?.map isQuote).getD false then
        match readObject none (stepsFor more) more with
        | some (.obj added, rest) => do
          let (ms, _, rest) ← readFurther fuel (Keyed.putAll added ms) rest
          return (ms, true, rest)
        | some (_, rest) => some (ms, true, rest)
        | none => none
      else some (ms, true, cs)
    | _ => some (ms, false, cs)

/-- The next array or object outside all places, with whether a comma comes behind an object,
and what is left.  A sound one is read as it is, and at the end there is empty text. -/
def readOuter (cs : List Char) : Option (Json × Bool × List Char) := do
  match seekOpening (cs.length + 1) cs with
  | [] => return (.str "", false, [])
  | c :: cs =>
    let (v, rest) ← (readSound (c :: cs)).or
      (if c == '\x7b' then readObject none (stepsFor cs) cs
       else (readItems (Context.within none .item) ']' (stepsFor cs) [] cs).map
        fun (vs, rest) => (.arr vs, rest))
    match v with
    | .obj ms => do
      let (ms, comma, rest) ← readFurther (rest.length + 1) ms rest
      return (.obj ms, comma, rest)
    | v => return (v, false, rest)

/-! ## Whole texts -/

mutual

/-- Whether two values have the same shape: the same keys, the same lengths and the same
kinds of values. -/
def sameShape : Json → Json → Bool
  | .null, .null => true
  | .bool _, .bool _ => true
  | .int _, .int _ => true
  | .float _, .float _ => true
  | .str _, .str _ => true
  | .arr vs, .arr ws => sameShapeItems vs ws
  | .obj ms, .obj ns => ms.length == ns.length && sameShapeMembers ms ns
  | _, _ => false

/-- `sameShape` item by item. -/
def sameShapeItems : List Json → List Json → Bool
  | [], [] => true
  | v :: vs, w :: ws => sameShape v w && sameShapeItems vs ws
  | _, _ => false

/-- `sameShape` of each member with the member of the same key. -/
def sameShapeMembers : List (String × Json) → Members → Bool
  | [], _ => true
  | (k, v) :: ms, ns =>
    (match ns.lookup k with
      | some w => sameShape v w
      | none => false) && sameShapeMembers ms ns

end

/-- Whether a value holds nothing. -/
def isBlankValue : Json → Bool
  | .null => true
  | .bool b => !b
  | .str s => s.isEmpty
  | .arr vs => vs.isEmpty
  | .obj ms => ms.isEmpty
  | _ => false

/-- The values of a text after the first, each replacing one of the same shape before it unless
`listed` tells that they are a list: a comma came between two of them.  The last value stands
first. -/
def readMore : Nat → Bool → List Json → List Char → Option (List Json)
  | 0, _, _, _ => none
  | _ + 1, _, found, [] => some found
  | fuel + 1, listed, found, cs =>
    match readOuter cs with
    | none => none
    | some (v, comma, rest) =>
      let listed := listed || comma || (skipBlank cs).head? == some ','
      if isBlankValue v then readMore fuel listed found (rest.drop 1)
      else
        match found with
        | last :: earlier =>
          if (!listed && sameShape last v) || isBlankValue last then
            readMore fuel listed (v :: earlier) rest
          else readMore fuel listed (v :: found) rest
        | [] => readMore fuel listed [v] rest

mutual

/-- A value whose integers fit words of 64 bits and whose numbers are finite. -/
def settle : Json → Option Json
  | .int n =>
    if fitsWord n then some (.int n)
    else
      let x := Binary64.ofInt n
      if x.isFinite then some (.float x) else none
  | .float x => if x.isFinite then some (.float x) else none
  | .arr vs => (settleItems vs).map .arr
  | .obj ms => (settleMembers ms).map .obj
  | v => some v

/-- `settle` for the items of an array. -/
def settleItems : List Json → Option (List Json)
  | [] => some []
  | v :: vs => do return (← settle v) :: (← settleItems vs)

/-- `settle` for the members of an object. -/
def settleMembers : List (String × Json) → Option (List (String × Json))
  | [] => some []
  | (k, v) :: ms => do return (k, ← settle v) :: (← settleMembers ms)

end

/-- The value of a damaged text: what the loose dialect reads, or what can be pieced
together. -/
def repairList (cs : List Char) : Option Json := do
  let v ← match parseList .loose cs with
    | some v => some v
    | none => do
      let (v, comma, rest) ← readOuter cs
      let found ← readMore (cs.length + 1) comma [v] rest
      match found with
      | [v] => some v
      | vs => some (.arr vs.reverse)
  settle v

end PageDesign.Json.Repair
