/-
# PageDesign.Proofs.Forest.Events -- the steps through a forest, by recursion

The steps through a forest come from a list of what is still to do, on which the end of a
branch waits until everything below the branch is done.  `events_eq` says what comes out: a leaf
takes one step; a branch is entered, then come the steps of its children one level deeper, then
it is left.
-/
import PageDesign.Forest.Walk

namespace PageDesign.Forest

variable {ι : Type}

mutual

/-- The steps through a tree whose root is at depth `d`. -/
def treeSteps (d : Nat) : Component ι → List (Event ι)
  | .leaf i a l => [⟨.leaf, .leaf i a l, d⟩]
  | .branch i a f cs =>
    ⟨.enter, .branch i a f cs, d⟩ :: (steps (d + 1) cs ++ [⟨.exit, .branch i a f cs, d⟩])

/-- The steps through a forest whose roots are at depth `d`. -/
def steps (d : Nat) : Forest ι → List (Event ι)
  | [] => []
  | c :: cs => treeSteps d c ++ steps d cs

end

theorem steps_eq_flatMap (d : Nat) (f : Forest ι) : steps d f = f.flatMap (treeSteps d) := by
  induction f with
  | nil => rfl
  | cons c cs ih => rw [steps, ih, List.flatMap_cons]

/-- The steps that something still to do amounts to. -/
def Visit.steps : Visit ι → List (Event ι)
  | enter c d => treeSteps d c
  | leave c d => [⟨.exit, c, d⟩]

theorem flatMap_steps_enter (d : Nat) (f : Forest ι) :
    (f.map (Visit.enter · d)).flatMap Visit.steps = steps d f := by
  rw [List.flatMap_map, steps_eq_flatMap]
  rfl

/-- What is still to do is done one after the other, each to its end before the next. -/
theorem eventsFrom_eq (todo : List (Visit ι)) : eventsFrom todo = todo.flatMap Visit.steps := by
  induction todo using eventsFrom.induct with
  | case1 => rw [eventsFrom, List.flatMap_nil]
  | case2 c d todo ih => rw [eventsFrom, ih, List.flatMap_cons, Visit.steps, List.singleton_append]
  | case3 i a l d todo ih =>
      rw [eventsFrom, ih, List.flatMap_cons, Visit.steps, treeSteps, List.singleton_append]
  | case4 i a f cs d todo ih =>
      -- the children stand in front of the end of their branch, so their steps come before it
      have hcs : cs.attach.map (fun x => Visit.enter x.val (d + 1)) =
          cs.map (Visit.enter · (d + 1)) :=
        List.attach_map_val (l := cs) (f := fun c => Visit.enter c (d + 1))
      rw [hcs] at ih
      rw [eventsFrom, ih, List.flatMap_append, flatMap_steps_enter, List.flatMap_cons,
        List.flatMap_cons, Visit.steps, Visit.steps, treeSteps]
      simp only [List.cons_append, List.append_assoc]

theorem events_eq (f : Forest ι) (d : Nat) : f.events d = steps d f := by
  rw [events, eventsFrom_eq, flatMap_steps_enter]

end PageDesign.Forest
