/-
# PageDesign.Export.Escape -- text inside other text

Four places take text of a user: an attribute value between double quotes, a string literal
between double quotes, a template literal between grave accents, and text between JSX tags.
Each has characters of its own that must not be taken for its end or for code.  Beside each
way to write stands the way to read, and what is written reads back.
-/

namespace PageDesign.Escape

/-- A grave accent, which begins and ends a template literal. -/
def grave : Char := '\x60'

/-! ## Attribute values -/

/-- A character of an attribute value. -/
def attrChar (c : Char) : List Char :=
  if c = '&' then "&amp;".toList else if c = '"' then "&quot;".toList else [c]

/-- A text as an attribute value. -/
def attr (s : String) : String := String.ofList (s.toList.flatMap attrChar)

/-- An attribute value with its two entities read, from left to right. -/
def readAttr : List Char → List Char
  | '&' :: 'a' :: 'm' :: 'p' :: ';' :: cs => '&' :: readAttr cs
  | '&' :: 'q' :: 'u' :: 'o' :: 't' :: ';' :: cs => '"' :: readAttr cs
  | c :: cs => c :: readAttr cs
  | [] => []

/-! ## String literals -/

/-- A character of a string literal. -/
def literalChar (c : Char) : List Char :=
  if c = '\\' ∨ c = '"' then ['\\', c] else [c]

/-- A text as the inside of a string literal. -/
def literal (s : String) : String := String.ofList (s.toList.flatMap literalChar)

/-- A text as a string literal. -/
def quoted (s : String) : String := "\"" ++ literal s ++ "\""

/-- The inside of a literal and what follows its end.  A backslash makes the next character
an ordinary one. -/
def readLiteral (delimiter : Char) : List Char → Option (List Char × List Char)
  | [] => none
  | '\\' :: c :: cs => (readLiteral delimiter cs).map fun (inside, rest) => (c :: inside, rest)
  | c :: cs =>
    if c = delimiter then some ([], cs)
    else (readLiteral delimiter cs).map fun (inside, rest) => (c :: inside, rest)

/-! ## Template literals -/

/-- Characters of a template literal.  A dollar sign is escaped only before a brace. -/
def templateList : List Char → List Char
  | [] => []
  | '$' :: '{' :: cs => '\\' :: '$' :: '{' :: templateList cs
  | c :: cs =>
    if c = '\\' ∨ c = grave then '\\' :: c :: templateList cs else c :: templateList cs

/-- A text as the inside of a template literal. -/
def template (s : String) : String := String.ofList (templateList s.toList)

/-- A text as a template literal. -/
def templateLiteral (s : String) : String :=
  String.singleton grave ++ template s ++ String.singleton grave

/-! ## Text between JSX tags -/

/-- The characters that begin or end a tag or an expression. -/
def isJsxSpecial (c : Char) : Bool := c = '{' || c = '}' || c = '<' || c = '>'

/-- A character of a JSX text: a special one stands in an expression of its own. -/
def jsxChar (c : Char) : List Char :=
  if isJsxSpecial c then ['{', '\x27', c, '\x27', '}'] else [c]

/-- A text between JSX tags. -/
def jsxText (s : String) : String := String.ofList (s.toList.flatMap jsxChar)

/-- A JSX text with its expressions read, from left to right. -/
def readJsx : List Char → List Char
  | '{' :: '\x27' :: c :: '\x27' :: '}' :: cs => c :: readJsx cs
  | c :: cs => c :: readJsx cs
  | [] => []

end PageDesign.Escape
