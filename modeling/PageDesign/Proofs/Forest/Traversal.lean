/-
# PageDesign.Proofs.Forest.Traversal -- the ways through a forest agree

A forest is gone through in two ways.  A walk visits every component once, before those below it.
The steps through a forest also tell where a branch ends, and a branch is entered and left even if
there is nothing in it.  Both are carried out by loops, with stacks of different shapes: siblings
with a position for a walk (`slots`), and trees to enter and branches to leave for the steps
(`eventTurn`).

`traversals_agree` says that both loops end, that a walk is the listing in pre-order and has every
place of the forest once, and that the steps are well bracketed: between the two steps for a branch
are those through its children (`Fits`), and the steps that do not leave a branch are the walk.

The depth at which the steps begin may be any integer, so a step has an integer depth here
(`Passage`).
-/
import PageDesign.Proofs.Forest.Events
import PageDesign.Proofs.Forest.Loops
import PageDesign.Proofs.Forest.Places

namespace PageDesign

variable {ι : Type}

theorem Component.isBranch_iff {c : Component ι} :
    c.isBranch = true ↔ c.kind = .container ∨ c.kind = .card := by
  cases c with
  | leaf i a l => cases l <;> simp [isBranch, kind, Leaf.kind]
  | branch i a f cs => cases f <;> simp [isBranch, kind, Frame.kind]

/-- The position among the roots from which the way to an address starts. -/
def Address.start (a : Address) : Nat := a.owner.headD a.index

theorem Address.below_injective (i : Nat) : Function.Injective (Address.below i) := by
  intro a b h
  obtain ⟨owner, index⟩ := a
  obtain ⟨owner', index'⟩ := b
  cases h
  rfl

namespace Forest

open Loop (Turn Ends Slot Cursor siblingTurn slotsFrom collect)

/-! ## Every place once -/

/-- A place among siblings, or below one of them. -/
theorem mem_placesFrom_iff {i : Nat} {f : Forest ι} {p : Address × Component ι} :
    p ∈ placesFrom i f ↔ ∃ k c, f[k]? = some c ∧ (p = (⟨[], i + k⟩, c) ∨
      ∃ q ∈ placesFrom 0 c.children, p = (q.1.below (i + k), q.2)) := by
  induction f generalizing i with
  | nil => simp [placesFrom]
  | cons d f ih =>
      rw [placesFrom_cons, List.mem_cons, List.mem_append, List.mem_map, ih]
      constructor
      · rintro (rfl | ⟨q, hq, rfl⟩ | ⟨k, c, hk, hp⟩)
        · exact ⟨0, d, rfl, .inl rfl⟩
        · exact ⟨0, d, rfl, .inr ⟨q, hq, rfl⟩⟩
        · refine ⟨k + 1, c, hk, ?_⟩
          have hindex : i + (k + 1) = i + 1 + k := by omega
          rwa [hindex]
      · rintro ⟨k, c, hk, hp⟩
        cases k with
        | zero =>
            cases hk
            rcases hp with rfl | ⟨q, hq, rfl⟩
            · exact .inl rfl
            · exact .inr (.inl ⟨q, hq, rfl⟩)
        | succ k =>
            refine .inr (.inr ⟨k, c, hk, ?_⟩)
            have hindex : i + 1 + k = i + (k + 1) := by omega
            rwa [hindex]

theorem le_start_of_mem_placesFrom {i : Nat} {f : Forest ι} {p : Address × Component ι}
    (hp : p ∈ placesFrom i f) : i ≤ p.1.start := by
  obtain ⟨k, c, -, rfl | ⟨q, -, rfl⟩⟩ := mem_placesFrom_iff.mp hp
  · exact Nat.le_add_right i k
  · exact Nat.le_add_right i k

/-- Whatever stands at an address is listed with it. -/
theorem mem_places_iff {f : Forest ι} {a : Address} {c : Component ι} :
    (a, c) ∈ f.places ↔ f.Holds a c := by
  constructor
  · exact holds_of_mem_places
  · rintro ⟨s, hs, hi⟩
    obtain ⟨owner, index⟩ := a
    change Leads owner f s at hs
    change s[index]? = some c at hi
    unfold places
    induction hs with
    | here f => exact mem_placesFrom_iff.mpr ⟨index, c, hi, .inl (by rw [Nat.zero_add])⟩
    | @down k path f s d hd _ _ ih =>
        refine mem_placesFrom_iff.mpr ⟨k, d, hd, .inr ⟨_, ih hi, ?_⟩⟩
        rw [Nat.zero_add]
        rfl

/-- No address is listed twice. -/
theorem nodup_addressesFrom (i : Nat) (f : Forest ι) : ((placesFrom i f).map (·.1)).Nodup := by
  induction f using Forest.induction generalizing i with
  | nil => simp [placesFrom]
  | cons c cs ihc ihcs =>
      have hbelow : ((placesFrom 0 c.children).map fun p => (p.1.below i, p.2)).map (·.1) =
          ((placesFrom 0 c.children).map (·.1)).map (Address.below i) := by
        rw [List.map_map, List.map_map]
        rfl
      -- the addresses behind the first tree start at later positions
      have hbehind : ∀ a ∈ (placesFrom (i + 1) cs).map (·.1), i < a.start := by
        intro a ha
        obtain ⟨p, hp, rfl⟩ := List.mem_map.mp ha
        exact le_start_of_mem_placesFrom hp
      rw [placesFrom_cons, List.map_cons, List.map_append, hbelow, List.nodup_cons,
        List.nodup_append', List.mem_append, not_or]
      refine ⟨⟨?_, fun hmem => ?_⟩, (ihc 0).map (Address.below_injective i), ihcs (i + 1), ?_⟩
      · rintro hmem
        obtain ⟨a, -, ha⟩ := List.mem_map.mp hmem
        cases ha
      · exact Nat.lt_irrefl i (hbehind _ hmem)
      · intro a ha ha'
        obtain ⟨b, -, rfl⟩ := List.mem_map.mp ha
        exact Nat.lt_irrefl i (hbehind _ ha')

/-! ## Slots -/

/-- What a walk keeps of the way: the depth. -/
def deeper (d _ : Nat) (_ : Component ι) : Nat := d + 1

/-- What the loop of a walk visits: every component with its position among its siblings, and its
depth. -/
def slots (f : Forest ι) : List (Slot ι Nat) := slotsFrom deeper f 0 0 f

theorem map_slotsFrom_deeper (siblings : Forest ι) (i d : Nat) (f : Forest ι) :
    (slotsFrom deeper siblings i d f).map (fun x => (x.node, x.way)) = preorder d f := by
  induction f using Forest.induction generalizing siblings i d with
  | nil => rw [slotsFrom, preorder, List.map_nil]
  | cons c cs ihc ihcs =>
      rw [Loop.slotsFrom_cons, preorder_cons, List.map_cons, List.map_append, ihc, ihcs]
      rfl

/-- The slot of a place, in a forest whose roots are at depth `d`. -/
def slotAt (f : Forest ι) (d : Nat) (p : Address × Component ι) : Slot ι Nat :=
  ⟨⟨(sequence? p.1.owner f).getD [], p.1.index, d + p.1.owner.length⟩, p.2⟩

theorem slotsFrom_deeper_eq (pre : Forest ι) (d : Nat) (f : Forest ι) :
    slotsFrom deeper (pre ++ f) pre.length d f =
      (placesFrom pre.length f).map (slotAt (pre ++ f) d) := by
  induction f using Forest.induction generalizing pre d with
  | nil => rw [slotsFrom, placesFrom, List.map_nil]
  | cons c cs ihc ihcs =>
      have hlength : (pre ++ [c]).length = pre.length + 1 := by simp
      have hbehind := ihcs (pre ++ [c]) d
      rw [hlength, List.append_assoc, List.singleton_append] at hbehind
      have hi : (pre ++ c :: cs)[pre.length]? = some c := by simp
      -- a slot below the first tree is the slot of the address seen from there
      have hslot (p : Address × Component ι) :
          slotAt (pre ++ c :: cs) d (p.1.below pre.length, p.2) = slotAt c.children (d + 1) p := by
        have hdepth : d + (p.1.owner.length + 1) = d + 1 + p.1.owner.length := by omega
        unfold slotAt Address.below
        rw [sequence?, hi, Option.bind_some, List.length_cons, hdepth]
      rw [Loop.slotsFrom_cons, placesFrom_cons, List.map_cons, List.map_append, List.map_map,
        hbehind]
      simp only [Function.comp_def, hslot]
      exact congrArg₂ List.cons rfl (congrArg (· ++ _) (ihc [] (d + 1)))

/-- The slots of a forest are its places. -/
theorem slots_eq (f : Forest ι) : f.slots = f.places.map (slotAt f 0) := slotsFrom_deeper_eq [] 0 f

theorem map_slots (f : Forest ι) : f.slots.map (fun x => (x.node, x.way)) = f.walk := by
  rw [walk_eq_preorder]
  exact map_slotsFrom_deeper f 0 0 f

theorem map_node_slots (f : Forest ι) : f.slots.map (·.node) = f.nodes := by
  rw [nodes, ← map_slots, List.map_map]
  rfl

theorem walk_eq_map_places (f : Forest ι) :
    f.walk = f.places.map fun p => (p.2, p.1.owner.length) := by
  rw [← map_slots, slots_eq, List.map_map]
  simp only [Function.comp_def, slotAt, Nat.zero_add]

theorem ends_slots_iff (f : Forest ι) (r : List (Slot ι Nat)) :
    Ends (siblingTurn deeper collect id) ([], [⟨f, 0, 0⟩]) r ↔ r = f.slots := by
  rw [Loop.ends_roots_iff, Loop.scan_collect]
  exact Iff.rfl

/-! ## Steps with an integer depth -/

/-- A step on the way through a forest, with any integer for its depth. -/
structure Passage (ι : Type) where
  kind : EventKind
  node : Component ι
  depth : Int

/-- A step seen from another depth. -/
def Event.passage (base : Int) (e : Event ι) : Passage ι := ⟨e.kind, e.node, base + e.depth⟩

/-- The steps through a forest whose roots are at depth `d`. -/
def passages (f : Forest ι) (d : Int) : List (Passage ι) := f.events.map (Event.passage d)

theorem map_passage_steps (base : Int) (d k : Nat) (f : Forest ι) :
    (steps (d + k) f).map (Event.passage base) = (steps d f).map (Event.passage (base + k)) := by
  induction f using Forest.induction generalizing d with
  | nil => rw [steps, steps, List.map_nil, List.map_nil]
  | cons c cs ihc ihcs =>
      have hdepth : base + ((d + k : Nat) : Int) = base + k + (d : Int) := by omega
      rw [steps, steps, List.map_append, List.map_append, ihcs]
      congr 1
      cases c with
      | leaf i a l =>
          simp only [treeSteps, List.map_cons, List.map_nil, Event.passage, hdepth]
      | branch i a f ds =>
          have hbelow : (steps (d + k + 1) ds).map (Event.passage base) =
              (steps (d + 1) ds).map (Event.passage (base + k)) := by
            rw [Nat.add_right_comm]
            exact ihc (d + 1)
          simp only [treeSteps, List.map_cons, List.map_append, List.map_nil, hbelow,
            Event.passage, hdepth]

/-- A depth that is a natural number is no different. -/
theorem map_passage_events (f : Forest ι) (d : Nat) :
    (f.events d).map (Event.passage 0) = f.passages d := by
  have h := map_passage_steps 0 0 d f
  rw [Nat.zero_add, Int.zero_add] at h
  rw [passages, events_eq, events_eq, h]

@[simp] theorem passages_nil (d : Int) : passages ([] : Forest ι) d = [] := by
  rw [passages, events_eq, steps, List.map_nil]

theorem passages_leaf {c : Component ι} (hc : c.isBranch = false) (cs : Forest ι) (d : Int) :
    passages (c :: cs) d = ⟨.leaf, c, d⟩ :: passages cs d := by
  cases c with
  | branch i a f ds => cases hc
  | leaf i a l =>
      rw [passages, passages, events_eq, events_eq, steps, treeSteps, List.singleton_append,
        List.map_cons, Event.passage]
      simp only [Int.natCast_zero, Int.add_zero]

theorem passages_branch {c : Component ι} (hc : c.isBranch = true) (cs : Forest ι) (d : Int) :
    passages (c :: cs) d = ⟨.enter, c, d⟩ ::
      (passages c.children (d + 1) ++ ⟨.exit, c, d⟩ :: passages cs d) := by
  cases c with
  | leaf i a l => cases hc
  | branch i a f ds =>
      have hbelow := map_passage_steps d 0 1 ds
      rw [passages, passages, passages, events_eq, events_eq, events_eq, steps, treeSteps,
        Component.children, List.cons_append, List.map_cons, List.append_assoc, List.map_append,
        hbelow]
      simp only [Event.passage, List.singleton_append, List.map_cons, Int.natCast_zero,
        Int.add_zero]
      rfl

/-! ## The loop -/

/-- What is on the stack: a tree to enter, or a branch to leave. -/
structure Mark (ι : Type) where
  node : Component ι
  depth : Int
  entering : Bool

/-- One turn: a branch that is left makes a step, and so does a leaf.  A branch that is entered
makes one and comes back on the stack, below its children. -/
def eventTurn : List (Passage ι) × List (Mark ι) →
    Turn (List (Passage ι) × List (Mark ι)) (List (Passage ι))
  | (made, []) => .stop made
  | (made, ⟨c, d, false⟩ :: stack) => .goOn (made ++ [⟨.exit, c, d⟩], stack)
  | (made, ⟨c, d, true⟩ :: stack) =>
    if c.isBranch then
      .goOn (made ++ [⟨.enter, c, d⟩],
        c.children.map (⟨·, d + 1, true⟩) ++ ⟨c, d, false⟩ :: stack)
    else .goOn (made ++ [⟨.leaf, c, d⟩], stack)

/-- The loop makes the steps through the trees at the top of the stack before it comes to what is
below them. -/
theorem ends_marks_iff (made : List (Passage ι)) (f : Forest ι) (d : Int) (stack : List (Mark ι))
    (r : List (Passage ι)) :
    Ends eventTurn (made, f.map (⟨·, d, true⟩) ++ stack) r ↔
      Ends eventTurn (made ++ f.passages d, stack) r := by
  induction f using Forest.induction generalizing made d stack with
  | nil => rw [passages_nil, List.append_nil, List.map_nil, List.nil_append]
  | cons c cs ihc ihcs =>
      rw [List.map_cons, List.cons_append]
      cases hc : c.isBranch with
      | false =>
          have hturn : eventTurn (made, ⟨c, d, true⟩ :: (cs.map (⟨·, d, true⟩) ++ stack)) =
              .goOn (made ++ [⟨.leaf, c, d⟩], cs.map (⟨·, d, true⟩) ++ stack) := by
            rw [eventTurn, if_neg (by rw [hc]; exact Bool.false_ne_true)]
          rw [Loop.ends_iff_of_goOn hturn, ihcs, passages_leaf hc, List.append_assoc,
            List.singleton_append]
      | true =>
          have henter : eventTurn (made, ⟨c, d, true⟩ :: (cs.map (⟨·, d, true⟩) ++ stack)) =
              .goOn (made ++ [⟨.enter, c, d⟩], c.children.map (⟨·, d + 1, true⟩) ++
                ⟨c, d, false⟩ :: (cs.map (⟨·, d, true⟩) ++ stack)) := by
            rw [eventTurn, if_pos hc]
          -- the children are through when the branch is on top again
          have hexit : eventTurn (made ++ [⟨.enter, c, d⟩] ++ c.children.passages (d + 1),
              ⟨c, d, false⟩ :: (cs.map (⟨·, d, true⟩) ++ stack)) =
              .goOn (made ++ [⟨.enter, c, d⟩] ++ c.children.passages (d + 1) ++ [⟨.exit, c, d⟩],
                cs.map (⟨·, d, true⟩) ++ stack) := rfl
          rw [Loop.ends_iff_of_goOn henter, ihc, Loop.ends_iff_of_goOn hexit, ihcs,
            passages_branch hc]
          simp only [List.append_assoc, List.cons_append, List.nil_append]

theorem ends_events_iff (f : Forest ι) (d : Int) (r : List (Passage ι)) :
    Ends eventTurn ([], f.map (⟨·, d, true⟩)) r ↔ r = f.passages d := by
  have h := ends_marks_iff [] f d [] r
  rw [List.append_nil, List.nil_append] at h
  rw [h]
  exact Loop.ends_iff_of_stop rfl

/-! ## Brackets -/

/-- Every step that leaves a branch is for the branch that was entered last, at the same depth, and
no branch stays entered. -/
def Closes : List (Component ι × Int) → List (Passage ι) → Prop
  | entered, [] => entered = []
  | entered, ⟨.leaf, _, _⟩ :: es => Closes entered es
  | entered, ⟨.enter, c, d⟩ :: es => Closes ((c, d) :: entered) es
  | [], ⟨.exit, _, _⟩ :: _ => False
  | x :: entered, ⟨.exit, c, d⟩ :: es => x = (c, d) ∧ Closes entered es

theorem closes_passages (entered : List (Component ι × Int)) (f : Forest ι) (d : Int)
    (es : List (Passage ι)) : Closes entered (f.passages d ++ es) ↔ Closes entered es := by
  induction f using Forest.induction generalizing entered d es with
  | nil => rw [passages_nil, List.nil_append]
  | cons c cs ihc ihcs =>
      cases hc : c.isBranch with
      | false =>
          rw [passages_leaf hc, List.cons_append, Closes]
          exact ihcs entered d es
      | true =>
          rw [passages_branch hc, List.cons_append, Closes, List.append_assoc, ihc,
            List.cons_append, Closes, ihcs, and_iff_right rfl]

/-- A step fits between those before it and those behind it: between the two steps for a branch
there are the steps through its children, one level deeper, and nothing else. -/
inductive Fits : List (Passage ι) → Passage ι → List (Passage ι) → Prop
  | leaf {c : Component ι} {d : Int} {before behind : List (Passage ι)} :
      c.isBranch = false → Fits before ⟨.leaf, c, d⟩ behind
  | enter {c : Component ι} {d : Int} {before behind : List (Passage ι)} :
      c.isBranch = true →
      Fits before ⟨.enter, c, d⟩ (c.children.passages (d + 1) ++ ⟨.exit, c, d⟩ :: behind)
  | exit {c : Component ι} {d : Int} {before behind : List (Passage ι)} :
      c.isBranch = true →
      Fits (before ++ ⟨.enter, c, d⟩ :: c.children.passages (d + 1)) ⟨.exit, c, d⟩ behind

/-- What fits still does with more before it and more behind it. -/
theorem Fits.extend {before behind : List (Passage ι)} {e : Passage ι} (h : Fits before e behind)
    (first last : List (Passage ι)) : Fits (first ++ before) e (behind ++ last) := by
  cases h with
  | leaf hc => exact .leaf hc
  | enter hc =>
      rw [List.append_assoc]
      exact .enter hc
  | exit hc =>
      rw [← List.append_assoc]
      exact .exit hc

/-- An item of two lists is in the first or in the second. -/
theorem append_eq_append_cons {α : Type} {xs ys before behind : List α} {x : α}
    (h : xs ++ ys = before ++ x :: behind) :
    (∃ behind', xs = before ++ x :: behind' ∧ behind = behind' ++ ys) ∨
      ∃ before', before = xs ++ before' ∧ ys = before' ++ x :: behind := by
  rcases List.append_eq_append_iff.mp h with ⟨before', rfl, hys⟩ | ⟨rest, rfl, hrest⟩
  · exact .inr ⟨before', rfl, hys⟩
  · cases rest with
    | nil => exact .inr ⟨[], by simp, hrest.symm⟩
    | cons y rest =>
        rw [List.cons_append, List.cons.injEq] at hrest
        obtain ⟨rfl, rfl⟩ := hrest
        exact .inl ⟨rest, rfl, rfl⟩

theorem fits_of_passages {f : Forest ι} {d : Int} {before behind : List (Passage ι)}
    {e : Passage ι} (h : f.passages d = before ++ e :: behind) : Fits before e behind := by
  induction f using Forest.induction generalizing d before behind with
  | nil =>
      rw [passages_nil] at h
      cases before <;> cases h
  | cons c cs ihc ihcs =>
      cases hc : c.isBranch with
      | false =>
          rw [passages_leaf hc] at h
          cases before with
          | nil =>
              cases h
              exact .leaf hc
          | cons x before =>
              rw [List.cons_append, List.cons.injEq] at h
              have hfits := (ihcs h.2).extend [x] []
              rwa [List.append_nil] at hfits
      | true =>
          rw [passages_branch hc] at h
          cases before with
          | nil =>
              cases h
              exact .enter hc
          | cons x before =>
              rw [List.cons_append, List.cons.injEq] at h
              obtain ⟨rfl, h⟩ := h
              rcases append_eq_append_cons h with
                ⟨behind', hchildren, rfl⟩ | ⟨before', rfl, hrest⟩
              · exact (ihc hchildren).extend [_] _
              · cases before' with
                | nil =>
                    rw [List.nil_append, List.cons.injEq] at hrest
                    obtain ⟨rfl, rfl⟩ := hrest
                    rw [List.append_nil]
                    exact @Fits.exit _ c d [] _ hc
                | cons y before' =>
                    rw [List.cons_append, List.cons.injEq] at hrest
                    have hfits := (ihcs hrest.2).extend
                      (⟨.enter, c, d⟩ :: (c.children.passages (d + 1) ++ [y])) []
                    rw [List.append_nil] at hfits
                    simpa using hfits

/-! ## Steps and walks -/

/-- The step with which a component is first met. -/
def meeting (base : Int) (x : Component ι × Nat) : Passage ι :=
  ⟨if x.1.isBranch then .enter else .leaf, x.1, base + x.2⟩

theorem filter_passages (base : Int) (n : Nat) (f : Forest ι) :
    (f.passages (base + n)).filter (·.kind ≠ .exit) = (preorder n f).map (meeting base) := by
  induction f using Forest.induction generalizing n with
  | nil => rw [passages_nil, preorder, List.filter_nil, List.map_nil]
  | cons c cs ihc ihcs =>
      have hdepth : base + (n : Int) + 1 = base + ((n + 1 : Nat) : Int) := by omega
      rw [preorder_cons, List.map_cons, List.map_append, ← ihc, ← ihcs]
      cases hc : c.isBranch with
      | false =>
          have hnone : c.children = [] := by
            cases c with
            | leaf i a l => rfl
            | branch i a f ds => cases hc
          rw [passages_leaf hc, hnone, passages_nil, meeting, hc]
          rfl
      | true =>
          rw [passages_branch hc, List.filter_cons_of_pos rfl, List.filter_append,
            List.filter_cons_of_neg (by simp), hdepth, meeting, hc]
          rfl

theorem countP_meetings (es : List (Passage ι)) :
    (es.filter (·.kind ≠ .exit)).length =
      es.countP (·.kind = .leaf) + es.countP (·.kind = .enter) := by
  induction es with
  | nil => rfl
  | cons e es ih =>
      obtain ⟨kind, c, d⟩ := e
      cases kind <;> simp_all <;> omega

/-- The steps through a forest, from depth `d` on. -/
structure Bracketed (f : Forest ι) (d : Int) (es : List (Passage ι)) : Prop where
  closes : Closes [] es
  fits : ∀ before e behind, es = before ++ e :: behind → Fits before e behind
  /-- Exactly the containers and the cards are entered, even without children. -/
  kinds : ∀ e ∈ es, e.kind ≠ .leaf ↔ e.node.kind = .container ∨ e.node.kind = .card
  /-- Every component is met once, a branch by entering it, in the order of the walk. -/
  meets : es.filter (·.kind ≠ .exit) = f.walk.map (meeting d)
  /-- Without the steps that leave a branch, and counted from depth zero, they are the walk. -/
  walk : (es.filter (·.kind ≠ .exit)).map (fun e => (e.node, e.depth - d)) =
    f.walk.map fun x => (x.1, (x.2 : Int))
  count : f.count = es.countP (·.kind = .leaf) + es.countP (·.kind = .enter)

theorem bracketed_passages (f : Forest ι) (d : Int) : Bracketed f d (f.passages d) := by
  have hmeets : (f.passages d).filter (·.kind ≠ .exit) = f.walk.map (meeting d) := by
    have h := filter_passages d 0 f
    rwa [Int.natCast_zero, Int.add_zero, ← walk_eq_preorder] at h
  constructor
  case closes =>
    have h := closes_passages [] f d []
    rw [List.append_nil] at h
    exact h.mpr rfl
  case fits =>
    intro before e behind h
    exact fits_of_passages h
  case kinds =>
    intro e he
    obtain ⟨before, behind, h⟩ := List.append_of_mem he
    rw [← Component.isBranch_iff]
    rcases fits_of_passages h with hc | hc | hc <;> simp [hc]
  case meets => exact hmeets
  case walk =>
    rw [hmeets, List.map_map]
    apply List.map_congr_left
    intro x _
    have hdepth : d + (x.2 : Int) - d = x.2 := by omega
    simp only [Function.comp_apply, meeting, hdepth]
  case count => rw [← countP_meetings, hmeets, List.length_map, count]

/-- A walk is the listing in pre-order: its loop ends, and has visited every place of the forest
once.  The loop of the steps ends too, from whatever depth it begins, and its steps are well
bracketed and agree with the walk. -/
theorem traversals_agree (f : Forest ι) :
    (∀ r, Ends (siblingTurn deeper collect id) ([], [⟨f, 0, 0⟩]) r ↔ r = f.slots) ∧
    f.slots = f.places.map (slotAt f 0) ∧
    f.slots.map (fun x => (x.node, x.way)) = f.walk ∧ f.walk = preorder 0 f ∧
    f.walk = f.places.map (fun p => (p.2, p.1.owner.length)) ∧
    (f.places.map (·.1)).Nodup ∧ (∀ a c, (a, c) ∈ f.places ↔ f.Holds a c) ∧
    (∀ d : Int, (∀ r, Ends eventTurn ([], f.map (⟨·, d, true⟩)) r ↔ r = f.passages d) ∧
      Bracketed f d (f.passages d)) ∧
    ∀ d : Nat, (f.events d).map (Event.passage 0) = f.passages d := by
  refine ⟨ends_slots_iff f, slots_eq f, map_slots f, walk_eq_preorder f, walk_eq_map_places f,
    nodup_addressesFrom 0 f, fun a c => mem_places_iff, fun d => ?_, map_passage_events f⟩
  exact ⟨ends_events_iff f d, bracketed_passages f d⟩

end Forest

end PageDesign
