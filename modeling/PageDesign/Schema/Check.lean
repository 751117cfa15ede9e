/-
# PageDesign.Schema.Check -- reading that collects all issues

A check yields a value or a list of issues.  Two checks side by side report the issues of
both, in order.  There is no sequencing: no check can depend on the value of another.
-/
import PageDesign.Schema.Issue
import PageDesign.Json.Basic

namespace PageDesign.Schema

/-- A value, or everything that is wrong. -/
inductive Check (α : Type) where
  | ok (a : α)
  | fail (issues : List Issue)
  deriving Repr

namespace Check

variable {α β : Type}

/-- Applies a function to the value of a check. -/
def map (f : α → β) : Check α → Check β
  | ok a => ok (f a)
  | fail is => fail is

/-- Two checks side by side: the value of the first is applied to that of the second. -/
def both : Check (α → β) → Check α → Check β
  | ok f, c => c.map f
  | fail is, ok _ => fail is
  | fail is, fail js => fail (is ++ js)

instance : Applicative Check where
  pure := ok
  map := map
  seq f c := both f (c ())

/-- A single fault at the place where the check stands. -/
def fault (f : Fault) : Check α := fail [⟨[], f⟩]

/-- A check seen from one step further out. -/
def within (step : Step) : Check α → Check α
  | ok a => ok a
  | fail is => fail (is.map (Issue.within step))

/-- A value that has to pass a test. -/
def guard (test : α → Bool) (f : Fault) : Check α → Check α
  | ok a => if test a then ok a else fault f
  | fail is => fail is

/-- The value of a check, if there is one. -/
def toOption : Check α → Option α
  | ok a => some a
  | fail _ => none

end Check

/-! ## Fields of an object -/

/-- The field of an object, or what stands for it when it is absent. -/
def field {α : Type} (ms : Json.Members) (name : String) (default : α) (read : Json → Check α) :
    Check α :=
  match ms.lookup name with
  | some v => (read v).within (.field name)
  | none => .ok default

/-- The field of an object that has to be there. -/
def required {α : Type} (ms : Json.Members) (name : String) (read : Json → Check α) : Check α :=
  match ms.lookup name with
  | some v => (read v).within (.field name)
  | none => .fail [⟨[.field name], .missingField⟩]

/-- A complaint about every field that is not known. -/
def noExtras (known : List String) (ms : Json.Members) : Check Unit :=
  match ms.filterMap fun (k, _) =>
      if known.contains k then none else some (Issue.mk [.field k] .extraField) with
  | [] => .ok ()
  | issues => .fail issues

/-! ## Lists and dictionaries -/

/-- The items of an array from a position on. -/
def items {α : Type} (read : Json → Check α) : Nat → List Json → Check (List α)
  | _, [] => .ok []
  | n, v :: vs => List.cons <$> (read v).within (.index n) <*> items read (n + 1) vs

/-- An array. -/
def list {α : Type} (read : Json → Check α) : Json → Check (List α)
  | .arr vs => items read 0 vs
  | _ => .fault .notList

/-- The entries of an object. -/
def entries {α : Type} (read : Json → Check α) : List (String × Json) → Check (List (String × α))
  | [] => .ok []
  | (k, v) :: ms =>
    List.cons <$> ((read v).within (.field k)).map (k, ·) <*> entries read ms

/-- An object with free keys. -/
def dict {α : Type} (read : Json → Check α) : Json → Check (List (String × α))
  | .obj ms => entries read ms
  | _ => .fault .notDict

end PageDesign.Schema
