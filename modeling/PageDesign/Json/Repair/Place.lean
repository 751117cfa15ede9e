/-
# PageDesign.Json.Repair.Place -- places in a damaged text

The reader of damaged JSON knows its `Context`, the kind of place it stands in and the kinds
of places around it.  What may stand between two elements depends on it: blanks, stray commas
and comments, which the colon of a key ends.
-/
import PageDesign.Json.Repair.Ahead

namespace PageDesign.Json.Repair

/-! ## Places -/

/-- What a text stands for. -/
inductive Place where
  | key
  | value
  | item
  deriving DecidableEq, Repr

/-- The place of the reader, the one directly around it, and which kinds of places there are
around it, its own included. -/
structure Context where
  place : Place
  outer : Option Place := none
  inKey : Bool := false
  inValue : Bool := false
  inArray : Bool := false

/-- A place inside another. -/
def Context.within (outer : Option Context) (place : Place) : Context where
  place := place
  outer := outer.map (·.place)
  inKey := place = .key || (outer.map (·.inKey)).getD false
  inValue := place = .value || (outer.map (·.inValue)).getD false
  inArray := place = .item || (outer.map (·.inArray)).getD false

/-- Whether an array encloses a place. -/
def inArray (ctx : Option Context) : Bool := (ctx.map (·.inArray)).getD false

/-! ## Comments -/

/-- The text after a comment of the block kind, from its first star on.  That star may be its
last one too. -/
def skipBlock : List Char → List Char
  | '*' :: '/' :: cs => cs
  | _ :: cs => skipBlock cs
  | [] => []

/-- The end of a comment that takes the rest of a line: the line's end, or a colon where `colon`
says so. -/
def skipLine (colon : Bool) (cs : List Char) : List Char :=
  cs.dropWhile fun c => !(c == '\n' || c == '\r' || (c == ':' && colon))

/-- The text after a comment, if one begins here. -/
def skipComment? (colon : Bool) : List Char → Option (List Char)
  | '#' :: cs => some (skipLine colon cs)
  | '/' :: '/' :: cs => some (skipLine colon cs)
  | '/' :: '*' :: cs => some (skipBlock ('*' :: cs))
  | _ => none

/-- The text after a comment in the place of an element, where a slash on its own counts as
one.  The colon of a key ends it. -/
def skipRemark? (ctx : Option Context) (cs : List Char) : Option (List Char) :=
  (skipComment? ((ctx.map (·.inKey)).getD false) cs).or
    (if cs.head? == some '/' then some (cs.drop 1) else none)

/-! ## Between two elements -/

/-- The text after blanks, comments and, where `commas` says so, commas.  A comment inside a
key ends at a colon, but not the one between the key and its colon. -/
def skipFillerFrom (ctx : Option Context) (commas : Bool) : Nat → List Char → List Char
  | 0, cs => cs
  | fuel + 1, cs =>
    match skipBlank cs with
    | [] => []
    | c :: cs =>
      if commas && c == ',' then skipFillerFrom ctx commas fuel cs
      else
        let colon := (ctx.map fun here => here.inKey && here.place != .key).getD false
        match skipComment? colon (c :: cs) with
        | some rest => skipFillerFrom ctx commas fuel rest
        | none => c :: cs

/-- The text after blanks and comments. -/
def skipFiller (ctx : Option Context) (cs : List Char) : List Char :=
  skipFillerFrom ctx false (cs.length + 1) cs

/-- The text after blanks, comments and commas. -/
def skipSeparators (ctx : Option Context) (cs : List Char) : List Char :=
  skipFillerFrom ctx true (cs.length + 1) cs

end PageDesign.Json.Repair
