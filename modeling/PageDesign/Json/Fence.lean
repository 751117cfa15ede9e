/-
# PageDesign.Json.Fence -- code fences

A text from a clipboard may hold its payload in a code fence: three backticks, the rest of a
line, the payload, and three backticks again.  A fence that is never closed reaches to the end.
-/
import PageDesign.Text.Search

namespace PageDesign.Json

/-- Three backticks, which open and close a code fence. -/
def fence : List Char := List.replicate 3 '\x60'

/-- What a code fence encloses: from the line after the opening fence to the closing one, or
to the end.  A text without a fence stays as it is. -/
def stripFence (cs : List Char) : List Char :=
  match Text.splitAtFirst? fence cs with
  | none => cs
  | some (_, after) =>
    match Text.splitAtFirst? ['\n'] after with
    | none => cs
    | some (_, body) =>
      match Text.splitAtFirst? fence body with
      | none => body
      | some (inner, _) => inner

end PageDesign.Json
