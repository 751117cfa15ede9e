/-
# PageDesign.CommandLine.Arguments -- reading the arguments of a command

Arguments are flags, options with a value, and plain words.  A long option takes its value
after an equals sign or from the next argument.  Short ones may stand together in one
argument, and the first of them that takes a value takes what is left of it, or the next
argument.  After a double hyphen all arguments are plain words.
-/
import PageDesign.Keyed
import PageDesign.Text.Search

namespace PageDesign.CommandLine

/-! ## What a command takes -/

/-- An option of a command, long and perhaps short. -/
structure Switch where
  long : String
  short : Option Char := none
  takesValue : Bool := true
  deriving DecidableEq, Repr

/-- What is wrong with arguments. -/
inductive Misuse where
  | noSuchOption (option : String)
  | valueMissing (option : String)
  | valueUnexpected (option : String)
  | wordMissing (name : String)
  | wordUnexpected (word : String)
  | noPath (name : String)
  | commandMissing
  | noSuchCommand (name : String)
  deriving DecidableEq, Repr

/-- The words for it. -/
def Misuse.message : Misuse → String
  | noSuchOption o => "No such option: " ++ o
  | valueMissing o => "Option '" ++ o ++ "' requires an argument."
  | valueUnexpected o => "Option '" ++ o ++ "' does not take a value."
  | wordMissing n => "Missing argument '" ++ n ++ "'."
  | wordUnexpected w => "Got unexpected extra argument (" ++ w ++ ")"
  | noPath n => "Invalid value for '" ++ n ++ "': embedded null byte"
  | commandMissing => "Missing command."
  | noSuchCommand n => "No such command '" ++ n ++ "'."

/-- Arguments sorted out.  A flag has the empty text as its value, and of several values of an
option the last one counts. -/
structure Sorted where
  options : Keyed String := []
  words : List String := []
  deriving Repr

/-- Options put in front of arguments that are sorted out. -/
def Sorted.withOptions (given : Keyed String) (s : Sorted) : Sorted :=
  { s with options := given ++ s.options }

/-- The last value of an option. -/
def Sorted.value? (s : Sorted) (long : String) : Option String :=
  s.options.reverse.lookup long

/-- Whether a flag is set. -/
def Sorted.has (s : Sorted) (long : String) : Bool := (s.value? long).isSome

/-! ## One argument -/

/-- What an argument with options gives: values, and perhaps an option that waits for the next
argument. -/
structure Given where
  values : Keyed String := []
  waiting : Option Switch := none

/-- A long option, with the value after its equals sign. -/
def readLong (known : List Switch) (arg : String) : Except Misuse Given :=
  let (name, value) := match Text.splitAtFirst? ['='] arg.toList with
    | some (name, value) => (String.ofList name, some (String.ofList value))
    | none => (arg, none)
  match known.find? (·.long == name), value with
  | none, _ => .error (.noSuchOption name)
  | some o, some v =>
    if o.takesValue then .ok ⟨[(o.long, v)], none⟩ else .error (.valueUnexpected name)
  | some o, none => if o.takesValue then .ok ⟨[], some o⟩ else .ok ⟨[(o.long, "")], none⟩

/-- Short options in one argument. -/
def readShort (known : List Switch) : List Char → Except Misuse Given
  | [] => .ok {}
  | c :: cs =>
    match known.find? (·.short == some c) with
    | none => .error (.noSuchOption (String.ofList ['-', c]))
    | some o =>
      if o.takesValue then
        if cs.isEmpty then .ok ⟨[], some o⟩ else .ok ⟨[(o.long, String.ofList cs)], none⟩
      else (readShort known cs).map fun g => { g with values := (o.long, "") :: g.values }

/-- The options in an argument; a plain word has none. -/
def readOptions? (known : List Switch) (arg : String) : Option (Except Misuse Given) :=
  match arg.toList with
  | '-' :: '-' :: _ => some (readLong known arg)
  | '-' :: c :: cs => some (readShort known (c :: cs))
  | _ => none

/-! ## All arguments -/

/-- Sorts arguments out.  Where words end the options, everything after the first word is a
word too. -/
def sort (known : List Switch) (wordsEnd : Bool) : List String → Except Misuse Sorted
  | [] => .ok {}
  | "--" :: rest => .ok { words := rest }
  | arg :: rest =>
    match readOptions? known arg with
    | none =>
      if wordsEnd then .ok { words := arg :: rest }
      else (sort known wordsEnd rest).map fun s => { s with words := arg :: s.words }
    | some (.error e) => .error e
    | some (.ok ⟨given, none⟩) => (sort known wordsEnd rest).map (·.withOptions given)
    | some (.ok ⟨given, some o⟩) =>
      match rest with
      | [] => .error (.valueMissing o.long)
      | value :: rest =>
        (sort known wordsEnd rest).map (·.withOptions (given ++ [(o.long, value)]))

/-- The words of a command that takes as many as there are names. -/
def exactly (names : List String) (words : List String) : Except Misuse (List String) :=
  match names.drop words.length, words.drop names.length with
  | name :: _, _ => .error (.wordMissing name)
  | [], word :: _ => .error (.wordUnexpected word)
  | [], [] => .ok words

end PageDesign.CommandLine
