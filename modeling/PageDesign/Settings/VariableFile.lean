/-
# PageDesign.Settings.VariableFile -- files of variables

A file of variables has a binding on each line: a name, an equals sign and a value, which may
stand between quotes and then go over several lines.  Comments begin with a number sign.  A
line that is no binding is passed over.
-/
import PageDesign.Keyed
import PageDesign.Text.Lines

namespace PageDesign

namespace VariableFile

/-! ## Pieces of a line -/

/-- A blank that does not end a line. -/
def isSpace (c : Char) : Bool := Text.isBlank c && c != '\n'

/-- What follows spaces. -/
def skipSpaces (cs : List Char) : List Char := cs.dropWhile isSpace

/-- What follows the line, and its end. -/
def skipLine (cs : List Char) : List Char := (cs.dropWhile (· != '\n')).drop 1

/-- What follows the word that marks a binding for export, if it is there. -/
def skipExport (cs : List Char) : List Char :=
  let word := "export".toList
  let rest := cs.drop word.length
  if word.isPrefixOf cs && (rest.head?.map isSpace).getD false then skipSpaces rest else cs

/-! ## Quoted text -/

/-- The inside of quotes and what follows, where a backslash hides the character after it. -/
def quoted? (quote : Char) : List Char → Option (List Char × List Char)
  | [] => none
  | '\\' :: c :: cs => (quoted? quote cs).map fun (s, rest) => ('\\' :: c :: s, rest)
  | c :: cs =>
    if c = quote then some ([], cs) else (quoted? quote cs).map fun (s, rest) => (c :: s, rest)

/-- The character that an escape stands for between single quotes. -/
def singleEscape? : Char → Option Char
  | '\\' => some '\\'
  | '\x27' => some '\x27'
  | _ => none

/-- The character that an escape stands for between double quotes. -/
def doubleEscape? : Char → Option Char
  | '\\' => some '\\'
  | '\x27' => some '\x27'
  | '"' => some '"'
  | 'a' => some '\x07'
  | 'b' => some '\x08'
  | 'f' => some '\x0c'
  | 'n' => some '\n'
  | 'r' => some '\r'
  | 't' => some '\t'
  | 'v' => some '\x0b'
  | _ => none

/-- A text with its escapes read. -/
def unescaped (escape? : Char → Option Char) : List Char → List Char
  | '\\' :: c :: cs =>
    match escape? c with
    | some d => d :: unescaped escape? cs
    | none => '\\' :: unescaped escape? (c :: cs)
  | c :: cs => c :: unescaped escape? cs
  | [] => []

/-! ## Bindings -/

/-- A name and what follows it. -/
def key? : List Char → Option (List Char × List Char)
  | '\x27' :: cs =>
    let name := cs.takeWhile (· != '\x27')
    match cs.dropWhile (· != '\x27') with
    | _ :: rest => if name.isEmpty then none else some (name, rest)
    | [] => none
  | cs =>
    let inName := fun c : Char => !(c == '=' || c == '#' || Text.isBlank c)
    let name := cs.takeWhile inName
    if name.isEmpty then none else some (name, cs.dropWhile inName)

/-- A value up to a comment, which begins after a blank. -/
def beforeComment : List Char → List Char
  | [] => []
  | c :: cs =>
    if Text.isBlank c && (cs.dropWhile Text.isBlank).head? == some '#' then []
    else c :: beforeComment cs

/-- A value without quotes and what follows it. -/
def plain (cs : List Char) : List Char × List Char :=
  (Text.dropEndWhile Text.isBlank (beforeComment (cs.takeWhile (· != '\n'))),
    cs.dropWhile (· != '\n'))

/-- A value after its equals sign, and what follows it.  A number sign after spaces begins a
comment, so that nothing is left of the value. -/
def value? (afterSign : List Char) : Option (List Char × List Char) :=
  match skipSpaces afterSign with
  | '\x27' :: cs => (quoted? '\x27' cs).map fun (s, rest) => (unescaped singleEscape? s, rest)
  | '"' :: cs => (quoted? '"' cs).map fun (s, rest) => (unescaped doubleEscape? s, rest)
  | cs => if cs.head? = some '#' then some (plain afterSign) else some (plain cs)

/-- What follows the rest of a line, which may hold a comment and nothing else. -/
def lineEnd? (cs : List Char) : Option (List Char) :=
  let rest := match skipSpaces cs with
    | '#' :: cs => cs.dropWhile (· != '\n')
    | cs => cs
  match rest with
  | [] => some []
  | '\n' :: rest => some rest
  | _ => none

/-- A name with its value, if it has one. -/
abbrev Binding := String × Option String

/-- A binding, if nothing but a comment follows it on its line, and what follows the line. -/
def finish (b : Binding) (cs : List Char) : Option Binding × List Char :=
  match lineEnd? cs with
  | some rest => (some b, rest)
  | none => (none, skipLine cs)

/-- A binding, if there is one, and what follows its line. -/
def binding (cs : List Char) : Option Binding × List Char :=
  match key? cs with
  | none => (none, skipLine cs)
  | some (name, rest) =>
    match skipSpaces rest with
    | '=' :: rest =>
      match value? rest with
      | some (value, rest) => finish (String.ofList name, some (String.ofList value)) rest
      | none => (none, skipLine rest)
    | rest => finish (String.ofList name, none) rest

/-- The bindings of a text, where `fuel` bounds the number of lines. -/
def bindingsFrom : Nat → List Char → List Binding
  | 0, _ => []
  | fuel + 1, cs =>
    match skipExport (cs.dropWhile Text.isBlank) with
    | [] => []
    | rest =>
      match binding rest with
      | (some b, rest) => b :: bindingsFrom fuel rest
      | (none, rest) => bindingsFrom fuel rest

/-- A text without the mark that may stand at the start of a file. -/
def withoutMark : List Char → List Char
  | '\uFEFF' :: cs => cs
  | cs => cs

/-- The bindings of a text, in order. -/
def bindings (s : String) : List Binding :=
  let cs := Text.unifyLineEnds (withoutMark s.toList)
  bindingsFrom (cs.length + 1) cs

/-! ## References -/

/-- A piece of a value: plain characters, or a variable with what stands in for it. -/
inductive Piece where
  | plain (c : Char)
  | reference (name : String) (default : String)

/-- A reference after its opening brace: the name, what stands in for it, and what follows. -/
def reference? (cs : List Char) : Option (Piece × List Char) :=
  let name := String.ofList (cs.takeWhile fun c => c != '}' && c != ':')
  match cs.dropWhile fun c => c != '}' && c != ':' with
  | '}' :: rest => some (.reference name "", rest)
  | ':' :: '-' :: rest =>
    match rest.dropWhile (· != '}') with
    | _ :: after =>
      some (.reference name (String.ofList (rest.takeWhile (· != '}'))), after)
    | [] => none
  | _ => none

/-- The pieces of a value, where `fuel` bounds their number. -/
def piecesFrom : Nat → List Char → List Piece
  | 0, _ => []
  | _, [] => []
  | fuel + 1, '$' :: '{' :: cs =>
    match reference? cs with
    | some (p, rest) => p :: piecesFrom fuel rest
    | none => .plain '$' :: piecesFrom fuel ('{' :: cs)
  | fuel + 1, c :: cs => .plain c :: piecesFrom fuel cs

/-- A value with its references replaced. -/
def expand (lookup : String → Option String) (s : String) : String :=
  String.join ((piecesFrom s.length s.toList).map fun
    | .plain c => String.singleton c
    | .reference name default => (lookup name).getD default)

/-- Bindings one after the other: a value may refer to variables that are bound before it, and
then to the environment.  A name without a value hides the environment. -/
def resolve (environment : List (String × String)) (bs : List Binding) : List Binding :=
  bs.foldl (fun known (name, value) =>
    let lookup := fun n =>
      match known.lookup n with
      | some v => some (v.getD "")
      | none => environment.lookup n
    Keyed.put name (value.map (expand lookup)) known) []

/-- What a text says of variables, each name once, with its last value and in the order in
which the names first appear. -/
def assignments (environment : List (String × String)) (s : String) : List Binding :=
  resolve environment (bindings s)

end VariableFile

end PageDesign
