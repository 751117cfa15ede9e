/-
# PageDesign.Proofs.Forest.Loops -- loops with a stack go through a forest in pre-order

A forest of any depth can be gone through by a loop that keeps on a stack what is still to visit.
Two kinds of stacks are in use.  On one there are trees: the top one is taken, and its children
come in its place.  On the other there are sequences of siblings, each with the position that
comes next; what is on the stack does not say then how much there is still to do, as a sequence
stays on it after its last tree, and a tree without children puts nothing on it.

A loop may stop early, so it is described turn by turn (`Turn`), and `Ends` says that it ends.
`ends_trees_iff` and `ends_siblings_iff` say of both kinds that they end, with one result, and that
it is the result of the plain loop over the listing in pre-order (`scan`).
-/
import PageDesign.Proofs.Forest.Preorder

namespace PageDesign

variable {ι σ ρ α γ : Type}

namespace Loop

/-! ## Loops -/

/-- What a turn of a loop comes to: the state of the next turn, or the end. -/
inductive Turn (σ ρ : Type) where
  | goOn (state : σ)
  | stop (result : ρ)

/-- A loop comes from a state to its end, with a result. -/
inductive Ends (turn : σ → Turn σ ρ) : σ → ρ → Prop
  | stop {s : σ} {r : ρ} : turn s = .stop r → Ends turn s r
  | goOn {s t : σ} {r : ρ} : turn s = .goOn t → Ends turn t r → Ends turn s r

section Ends

variable {turn : σ → Turn σ ρ} {s t : σ} {r r' : ρ}

theorem ends_iff_of_stop (h : turn s = .stop r) : Ends turn s r' ↔ r' = r := by
  constructor
  · intro hends
    cases hends with
    | stop hstop =>
        cases h.symm.trans hstop
        rfl
    | goOn hgo _ => cases h.symm.trans hgo
  · rintro rfl
    exact .stop h

theorem ends_iff_of_goOn (h : turn s = .goOn t) : Ends turn s r ↔ Ends turn t r := by
  constructor
  · intro hends
    cases hends with
    | stop hstop => cases h.symm.trans hstop
    | goOn hgo hrest =>
        cases h.symm.trans hgo
        exact hrest
  · exact .goOn h

end Ends

/-- The loop over a list: the items have a look taken at them one after the other, until a look
stops the loop.  Behind the last one the state is closed. -/
def scan (look : σ → α → Turn σ ρ) (close : σ → ρ) : σ → List α → ρ
  | s, [] => close s
  | s, x :: xs =>
    match look s x with
    | .stop r => r
    | .goOn t => scan look close t xs

section Over

variable {look : σ → α → Turn σ ρ} {close : σ → ρ} {s t : σ} {r : ρ} {x : α}

theorem scan_of_stop (h : look s x = .stop r) (xs : List α) : scan look close s (x :: xs) = r := by
  rw [scan, h]

theorem scan_of_goOn (h : look s x = .goOn t) (xs : List α) :
    scan look close s (x :: xs) = scan look close t xs := by
  rw [scan, h]

end Over

/-- A look that keeps every item. -/
def collect (kept : List α) (x : α) : Turn (List α) ρ := .goOn (kept ++ [x])

theorem scan_collect (close : List α → ρ) (kept xs : List α) :
    scan collect close kept xs = close (kept ++ xs) := by
  induction xs generalizing kept with
  | nil => rw [scan, List.append_nil]
  | cons x xs ih => rw [scan_of_goOn rfl, ih, List.append_assoc, List.singleton_append]

/-- A look that stops at the first item for which there is an answer. -/
def seek (answer? : α → Option ρ) (_ : Unit) (x : α) : Turn Unit (Option ρ) :=
  match answer? x with
  | some r => .stop (some r)
  | none => .goOn ()

theorem scan_seek (answer? : α → Option ρ) (xs : List α) :
    scan (seek answer?) (fun _ => none) () xs = xs.findSome? answer? := by
  induction xs with
  | nil => rfl
  | cons x xs ih =>
      rw [List.findSome?_cons]
      cases h : answer? x with
      | some r =>
          have hstop : seek answer? () x = .stop (some r) := by rw [seek, h]
          exact scan_of_stop hstop xs
      | none =>
          have hgo : seek answer? () x = .goOn () := by rw [seek, h]
          rw [scan_of_goOn hgo, ih]

/-- The answer is for the first item that is wanted. -/
theorem findSome_if (wanted : α → Bool) (answer : α → ρ) (xs : List α) :
    (xs.findSome? fun x => if wanted x then some (answer x) else none) =
      (xs.find? wanted).map answer := by
  induction xs with
  | nil => rfl
  | cons x xs ih =>
      rw [List.findSome?_cons, List.find?_cons, ih]
      cases wanted x <;> rfl

/-! ## Trees on a stack -/

/-- One turn: the top tree is taken, a look is taken at its root, and its children come in its
place, the first one on top. -/
def treeTurn (look : σ → Component ι → Turn σ ρ) (close : σ → ρ) :
    σ × Forest ι → Turn (σ × Forest ι) ρ
  | (s, []) => .stop (close s)
  | (s, c :: stack) =>
    match look s c with
    | .stop r => .stop r
    | .goOn t => .goOn (t, c.children ++ stack)

end Loop

/-- A property of the empty stack that passes from the stack with a tree's children to the one with
the tree holds of every stack. -/
theorem Forest.induction_stack {motive : Forest ι → Prop} (nil : motive [])
    (cons : ∀ (c : Component ι) (stack : Forest ι),
      motive (c.children ++ stack) → motive (c :: stack)) :
    ∀ stack : Forest ι, motive stack
  | [] => nil
  | c :: stack => cons c stack (induction_stack nil cons (c.children ++ stack))
termination_by stack => Component.sizeForest stack
decreasing_by
  have := Component.size_eq c
  rw [Component.sizeForest_append, Component.sizeForest]
  omega

namespace Loop

/-- A loop with trees on a stack ends as the loop over the listing in pre-order does. -/
theorem ends_trees_iff (look : σ → Component ι → Turn σ ρ) (close : σ → ρ) (s : σ)
    (stack : Forest ι) (r : ρ) :
    Ends (treeTurn look close) (s, stack) r ↔ r = scan look close s stack.nodes := by
  induction stack using Forest.induction_stack generalizing s with
  | nil =>
      rw [Forest.nodes_nil]
      exact ends_iff_of_stop rfl
  | cons c stack ih =>
      rw [Forest.nodes_cons]
      cases hlook : look s c with
      | stop result =>
          have hturn : treeTurn look close (s, c :: stack) = .stop result := by
            rw [treeTurn, hlook]
          rw [scan_of_stop hlook]
          exact ends_iff_of_stop hturn
      | goOn t =>
          have hturn : treeTurn look close (s, c :: stack) = .goOn (t, c.children ++ stack) := by
            rw [treeTurn, hlook]
          rw [scan_of_goOn hlook, ← Forest.nodes_append, ends_iff_of_goOn hturn]
          exact ih t

/-! ## Siblings on a stack -/

/-- Siblings from a position on, with what is known of the way to them. -/
structure Cursor (ι γ : Type) where
  siblings : Forest ι
  index : Nat
  way : γ

/-- A component at its position among its siblings. -/
structure Slot (ι γ : Type) extends Cursor ι γ where
  node : Component ι

/-- The siblings from the next position on. -/
def Cursor.next (x : Cursor ι γ) : Cursor ι γ := { x with index := x.index + 1 }

/-- What children put on the stack: themselves from the first one on, and nothing if there are
none. -/
def Cursor.into (w : γ) (cs : Forest ι) : List (Cursor ι γ) :=
  if cs.isEmpty then [] else [⟨cs, 0, w⟩]

/-- One turn: siblings that are at their end are taken off the stack.  Otherwise a look is taken at
the next one, and its children come on top of the siblings behind it. -/
def siblingTurn (below : γ → Nat → Component ι → γ) (look : σ → Slot ι γ → Turn σ ρ)
    (close : σ → ρ) : σ × List (Cursor ι γ) → Turn (σ × List (Cursor ι γ)) ρ
  | (s, []) => .stop (close s)
  | (s, top :: stack) =>
    match top.siblings[top.index]? with
    | none => .goOn (s, stack)
    | some c =>
      match look s ⟨top, c⟩ with
      | .stop r => .stop r
      | .goOn t =>
        .goOn (t, Cursor.into (below top.way top.index c) c.children ++ top.next :: stack)

/-! ### The measure

Siblings count twice for each component in and below them, and once for being taken off. -/

/-- How many turns at most siblings on the stack give rise to. -/
def Cursor.weight (x : Cursor ι γ) : Nat :=
  2 * Component.sizeForest (x.siblings.drop x.index) + 1

/-- How many turns at most a stack gives rise to. -/
def weights : List (Cursor ι γ) → Nat
  | [] => 0
  | x :: stack => x.weight + weights stack

theorem weights_append (xs ys : List (Cursor ι γ)) :
    weights (xs ++ ys) = weights xs + weights ys := by
  induction xs with
  | nil => rw [List.nil_append, weights, Nat.zero_add]
  | cons x xs ih => rw [List.cons_append, weights, weights, ih, Nat.add_assoc]

theorem drop_of_getElem? {l : List α} {i : Nat} {x : α} (h : l[i]? = some x) :
    l.drop i = x :: l.drop (i + 1) := by
  obtain ⟨hi, rfl⟩ := List.getElem?_eq_some_iff.mp h
  exact List.drop_eq_getElem_cons hi

theorem weights_into_le (w : γ) (cs : Forest ι) :
    weights (Cursor.into w cs) ≤ 2 * Component.sizeForest cs + 1 := by
  unfold Cursor.into
  split
  · exact Nat.zero_le _
  · exact Nat.le_refl _

theorem weights_goOn_lt {top : Cursor ι γ} {c : Component ι}
    (h : top.siblings[top.index]? = some c) (w : γ) (stack : List (Cursor ι γ)) :
    weights (Cursor.into w c.children ++ top.next :: stack) < weights (top :: stack) := by
  have htop : top.weight = 2 * (c.size + Component.sizeForest (top.siblings.drop (top.index + 1)))
      + 1 := by
    rw [Cursor.weight, drop_of_getElem? h, Component.sizeForest]
  have hnext : top.next.weight =
      2 * Component.sizeForest (top.siblings.drop (top.index + 1)) + 1 := rfl
  have hinto := weights_into_le w c.children
  have hsize := Component.size_eq c
  rw [weights_append, weights, weights]
  omega

/-- A property of the empty stack that passes from what a turn leaves to the stack before it holds
of every stack. -/
theorem induction_siblings {motive : List (Cursor ι γ) → Prop} (nil : motive [])
    (done : ∀ (top : Cursor ι γ) (stack : List (Cursor ι γ)),
      top.siblings[top.index]? = none → motive stack → motive (top :: stack))
    (step : ∀ (top : Cursor ι γ) (stack : List (Cursor ι γ)) (c : Component ι),
      top.siblings[top.index]? = some c →
      (∀ w, motive (Cursor.into w c.children ++ top.next :: stack)) → motive (top :: stack))
    (stack : List (Cursor ι γ)) : motive stack := by
  induction h : weights stack using Nat.strongRecOn generalizing stack with
  | ind n ih =>
      subst h
      cases stack with
      | nil => exact nil
      | cons top stack =>
          cases hget : top.siblings[top.index]? with
          | none =>
              refine done top stack hget (ih _ ?_ stack rfl)
              rw [weights, Cursor.weight]
              omega
          | some c =>
              exact step top stack c hget fun w => ih _ (weights_goOn_lt hget w stack) _ rfl

/-! ### The listing -/

section Slots

variable (below : γ → Nat → Component ι → γ)

mutual

/-- The components of the tree that stands at position `i` of some siblings, each in its slot. -/
def slotsOf (siblings : Forest ι) (i : Nat) (w : γ) : Component ι → List (Slot ι γ)
  | .leaf j a l => [⟨⟨siblings, i, w⟩, .leaf j a l⟩]
  | .branch j a f cs =>
    ⟨⟨siblings, i, w⟩, .branch j a f cs⟩ :: slotsFrom cs 0 (below w i (.branch j a f cs)) cs

/-- The components of those siblings that stand from position `i` on, each in its slot. -/
def slotsFrom (siblings : Forest ι) (i : Nat) (w : γ) : Forest ι → List (Slot ι γ)
  | [] => []
  | c :: cs => slotsOf siblings i w c ++ slotsFrom siblings (i + 1) w cs

end

theorem slotsFrom_cons (siblings : Forest ι) (i : Nat) (w : γ) (c : Component ι)
    (cs : Forest ι) :
    slotsFrom below siblings i w (c :: cs) = ⟨⟨siblings, i, w⟩, c⟩ ::
      (slotsFrom below c.children 0 (below w i c) c.children ++
        slotsFrom below siblings (i + 1) w cs) := by
  cases c with
  | leaf j a l => rw [slotsFrom, slotsOf, Component.children, slotsFrom]; rfl
  | branch j a f ds => rw [slotsFrom, slotsOf, Component.children]; rfl

/-- The components that siblings on the stack still have to come. -/
def Cursor.slots (x : Cursor ι γ) : List (Slot ι γ) :=
  slotsFrom below x.siblings x.index x.way (x.siblings.drop x.index)

theorem slots_of_none {x : Cursor ι γ} (h : x.siblings[x.index]? = none) :
    x.slots below = [] := by
  unfold Cursor.slots
  rw [List.drop_eq_nil_of_le (List.getElem?_eq_none_iff.mp h), slotsFrom]

theorem slots_of_some {x : Cursor ι γ} {c : Component ι} (h : x.siblings[x.index]? = some c) :
    x.slots below = ⟨x, c⟩ :: (slotsFrom below c.children 0 (below x.way x.index c) c.children ++
      x.next.slots below) := by
  unfold Cursor.slots
  rw [drop_of_getElem? h, slotsFrom_cons]
  rfl

theorem flatMap_slots_into (w : γ) (cs : Forest ι) :
    (Cursor.into w cs).flatMap (Cursor.slots below) = slotsFrom below cs 0 w cs := by
  cases cs with
  | nil => rw [slotsFrom]; rfl
  | cons c cs => exact List.append_nil _

/-- A loop with siblings on a stack ends as the loop over the listing in pre-order does. -/
theorem ends_siblings_iff (look : σ → Slot ι γ → Turn σ ρ) (close : σ → ρ) (s : σ)
    (stack : List (Cursor ι γ)) (r : ρ) :
    Ends (siblingTurn below look close) (s, stack) r ↔
      r = scan look close s (stack.flatMap (Cursor.slots below)) := by
  induction stack using induction_siblings generalizing s with
  | nil => exact ends_iff_of_stop rfl
  | done top stack hget ih =>
      have hturn : siblingTurn below look close (s, top :: stack) = .goOn (s, stack) := by
        rw [siblingTurn, hget]
      rw [ends_iff_of_goOn hturn, ih, List.flatMap_cons, slots_of_none below hget,
        List.nil_append]
  | step top stack c hget ih =>
      let w := below top.way top.index c
      -- the slots behind the first one are those of the stack that the turn leaves
      have hslots : (top :: stack).flatMap (Cursor.slots below) = ⟨top, c⟩ ::
          (Cursor.into w c.children ++ top.next :: stack).flatMap (Cursor.slots below) := by
        rw [List.flatMap_cons, slots_of_some below hget, List.flatMap_append, flatMap_slots_into,
          List.flatMap_cons, List.cons_append, List.append_assoc]
      rw [hslots]
      cases hlook : look s ⟨top, c⟩ with
      | stop result =>
          have hturn : siblingTurn below look close (s, top :: stack) = .stop result := by
            simp only [siblingTurn, hget, hlook]
          rw [scan_of_stop hlook]
          exact ends_iff_of_stop hturn
      | goOn t =>
          have hturn : siblingTurn below look close (s, top :: stack) =
              .goOn (t, Cursor.into w c.children ++ top.next :: stack) := by
            simp only [siblingTurn, hget, hlook, w]
          rw [scan_of_goOn hlook, ends_iff_of_goOn hturn]
          exact ih w t

/-- A loop that begins at the roots goes through the whole forest. -/
theorem ends_roots_iff (look : σ → Slot ι γ → Turn σ ρ) (close : σ → ρ) (s : σ) (w : γ)
    (f : Forest ι) (r : ρ) :
    Ends (siblingTurn below look close) (s, [⟨f, 0, w⟩]) r ↔
      r = scan look close s (slotsFrom below f 0 w f) := by
  have hslots : [(⟨f, 0, w⟩ : Cursor ι γ)].flatMap (Cursor.slots below) =
      slotsFrom below f 0 w f := List.append_nil _
  rw [ends_siblings_iff, hslots]

/-- A search that begins at the roots ends with the first answer in the whole forest. -/
theorem ends_seek_iff (answer? : Slot ι γ → Option ρ) (w : γ) (f : Forest ι) (r : Option ρ) :
    Ends (siblingTurn below (seek answer?) fun _ => none) ((), [⟨f, 0, w⟩]) r ↔
      r = (slotsFrom below f 0 w f).findSome? answer? := by
  rw [ends_roots_iff, scan_seek]

end Slots

end Loop

end PageDesign
