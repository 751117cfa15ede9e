/-
# PageDesign.Component.Ids -- fresh identities

Identities of new components are drawn from a counter.  `fill` gives one to every component
that was loaded without, parents before their children and siblings from left to right.
`remint` gives a new one to every component of a tree: the root first, then the children from
the last to the first, each with all below it.
-/
import PageDesign.Component.Basic

namespace PageDesign

/-- The number of identities drawn so far. -/
abbrev Minted := Nat

/-- The identity drawn as the `n`th. -/
def Id.ofCount (n : Nat) : Id := "cmp_" ++ String.ofList (Notation.padded 26 n)

/-- Draws the next identity. -/
def Id.mint (n : Minted) : Id × Minted := (Id.ofCount (n + 1), n + 1)

namespace Component

/-- The identity that a component was given, or a fresh one. -/
def fillId : Option Id → Minted → Id × Minted
  | some i, n => (i, n)
  | none, n => Id.mint n

mutual

/-- Gives an identity to every component of a tree that has none. -/
def fill : Component (Option Id) → Minted → Component Id × Minted
  | leaf i a l, n =>
    let (i, n) := fillId i n
    (leaf i a l, n)
  | branch i a f cs, n =>
    let (i, n) := fillId i n
    let (cs, n) := fillForest cs n
    (branch i a f cs, n)

/-- Gives an identity to every component of a forest that has none. -/
def fillForest : Forest (Option Id) → Minted → Forest Id × Minted
  | [], n => ([], n)
  | c :: cs, n =>
    let (c, n) := fill c n
    let (cs, n) := fillForest cs n
    (c :: cs, n)

end

mutual

/-- A copy of a tree under fresh identities. -/
def remint {ι : Type} : Component ι → Minted → Component Id × Minted
  | leaf _ a l, n =>
    let (i, n) := Id.mint n
    (leaf i a l, n)
  | branch _ a f cs, n =>
    let (i, n) := Id.mint n
    let (cs, n) := remintForest cs n
    (branch i a f cs, n)

/-- A copy of a forest under fresh identities, the last tree first. -/
def remintForest {ι : Type} : Forest ι → Minted → Forest Id × Minted
  | [], n => ([], n)
  | c :: cs, n =>
    let (cs, n) := remintForest cs n
    let (c, n) := remint c n
    (c :: cs, n)

end

end Component

end PageDesign
