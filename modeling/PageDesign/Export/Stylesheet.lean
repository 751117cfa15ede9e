/-
# PageDesign.Export.Stylesheet -- a stylesheet for a design

A stylesheet has fixed rules for buttons, then a rule for every container, then the keyframes
of every animation in use.  Containers and animations come in the order of a walk.
-/
import PageDesign.Digest
import PageDesign.Export.Style
import PageDesign.Forest.Walk

namespace PageDesign

namespace Stylesheet

/-! ## Fixed rules -/

/-- The rules for buttons. -/
def buttonRules : List String :=
  [".btn-primary \x7b",
    "  background: linear-gradient(135deg, #667eea 0%, #764ba2 100%);",
    "  color: white;",
    "  border: none;",
    "  padding: 8px 16px;",
    "  border-radius: 6px;",
    "  cursor: pointer;",
    "\x7d",
    "",
    ".btn-secondary \x7b",
    "  background: white;",
    "  color: #475569;",
    "  border: 1px solid #cbd5e1;",
    "  padding: 8px 16px;",
    "  border-radius: 6px;",
    "  cursor: pointer;",
    "\x7d",
    "",
    ".btn-outline \x7b",
    "  background: transparent;",
    "  color: #3b82f6;",
    "  border: 1px solid #3b82f6;",
    "  padding: 8px 16px;",
    "  border-radius: 6px;",
    "  cursor: pointer;",
    "\x7d",
    "",
    ".btn-ghost \x7b",
    "  background: transparent;",
    "  color: #6b7280;",
    "  border: none;",
    "  padding: 8px 16px;",
    "  cursor: pointer;",
    "\x7d",
    "",
    ".btn-sm \x7b padding: 4px 12px; font-size: 12px; \x7d",
    ".btn-md \x7b padding: 8px 16px; font-size: 14px; \x7d",
    ".btn-lg \x7b padding: 12px 24px; font-size: 16px; \x7d",
    ""]

/-- The lines that every stylesheet begins with. -/
def preamble : List String := ["/* Generated CSS */", ""] ++ buttonRules

/-! ## Containers -/

/-- The class of a container, made from its identity. -/
def containerClass (id : Id) : String :=
  "container-" ++ Digest.truncate 8 (Digest.ofText .xxhash64 id)

/-- The rule for a container. -/
def rule (id : Id) (c : Container) : List String :=
  ["." ++ containerClass id ++ " \x7b"] ++
    (Style.container c).map (fun d => "  " ++ d.text) ++ ["\x7d", ""]

/-- The rule for a component; only containers have one. -/
def ruleOf : Component Id → List String
  | .branch id _ (.container c) _ => rule id c
  | _ => []

/-! ## Keyframes -/

/-- One stage of an animation. -/
def stage (moment style : String) : String := moment ++ " \x7b " ++ style ++ " \x7d"

/-- The two stages of a movement. -/
def stages : AnimationType → List String
  | .none => []
  | .fadeIn => [stage "from" "opacity: 0;", stage "to" "opacity: 1;"]
  | .slideInUp =>
    [stage "from" "transform: translateY(20px); opacity: 0;",
      stage "to" "transform: translateY(0); opacity: 1;"]
  | .slideInDown =>
    [stage "from" "transform: translateY(-20px); opacity: 0;",
      stage "to" "transform: translateY(0); opacity: 1;"]
  | .slideInLeft =>
    [stage "from" "transform: translateX(-20px); opacity: 0;",
      stage "to" "transform: translateX(0); opacity: 1;"]
  | .slideInRight =>
    [stage "from" "transform: translateX(20px); opacity: 0;",
      stage "to" "transform: translateX(0); opacity: 1;"]
  | .bounce =>
    [stage "0%, 100%" "transform: translateY(0);", stage "50%" "transform: translateY(-10px);"]
  | .zoomIn =>
    [stage "from" "transform: scale(0.8); opacity: 0;",
      stage "to" "transform: scale(1); opacity: 1;"]
  | .pulse => [stage "0%, 100%" "opacity: 1;", stage "50%" "opacity: 0.5;"]

/-- The keyframes of a movement. -/
def keyframes (m : AnimationType) : List String :=
  ["@keyframes " ++ m.keyframes ++ " \x7b"] ++ (stages m).map ("  " ++ ·) ++ ["\x7d", ""]

/-- The movement of a component, if it has one. -/
def movement? {ι : Type} (c : Component ι) : Option AnimationType :=
  (c.animation.map Animation.movement).filter (· != .none)

/-- The movements in use, each once, in the order of their first use. -/
def movements {ι : Type} (f : Forest ι) : List AnimationType :=
  (f.nodes.filterMap movement?).eraseDups

/-! ## Stylesheets -/

/-- The lines of a stylesheet. -/
def lines (f : Forest Id) : List String :=
  preamble ++ f.nodes.flatMap ruleOf ++ (movements f).flatMap keyframes

/-- The stylesheet of a design. -/
def render (f : Forest Id) : String := String.join ((lines f).map (· ++ "\n"))

end Stylesheet

end PageDesign
