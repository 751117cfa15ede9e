/-
# PageDesign.Json.Extract -- finding an object in a text

Documents hold one JSON object.  Payloads from a clipboard hold one somewhere, perhaps inside
a code fence, and perhaps slightly damaged.  The object reaches from the first opening brace
to the last closing one.
-/
import PageDesign.Json.Fence
import PageDesign.Json.Parser
import PageDesign.Json.Repair

namespace PageDesign.Json

/-! ## Failures -/

/-- Why a text yields no object. -/
inductive ExtractError where
  | noObject
  | invalid
  | unrepairable
  | otherKind (kind : String)
  deriving DecidableEq, Repr

/-- The words for a failure. -/
def ExtractError.message : ExtractError → String
  | noObject => "No JSON object found in text"
  | invalid => "Invalid JSON"
  | unrepairable => "JSON repair failed"
  | otherKind kind => "Expected object, got " ++ kind

/-! ## The span of an object -/

/-- From the first opening brace to the last closing one. -/
def objectSpan? (cs : List Char) : Option (List Char) :=
  match Text.dropEndWhile (· != '\x7d') (cs.dropWhile (· != '\x7b')) with
  | [] => none
  | span => some span

/-- The part of a text in which its object is written.  A text that begins with an object may
hold backticks in its strings, so a fence is looked for only in others. -/
def candidate? (s : String) : Option (List Char) :=
  let cs := Text.trimList Text.isBlank s.toList
  objectSpan? (if cs.head? = some '\x7b' then cs else stripFence cs)

/-- The members of the object in a text.  With `repair` a damaged object is pieced
together. -/
def extractObject (s : String) (repair : Bool) : Except ExtractError Members := do
  let some span := candidate? s | throw .noObject
  let v ← match parseList .strict span with
    | some v => pure v
    | none =>
      if repair then
        match Repair.repairList span with
        | some v => pure v
        | none => throw .unrepairable
      else throw .invalid
  match v with
  | obj ms => return ms
  | other => throw (.otherKind (kindName other))

end PageDesign.Json
