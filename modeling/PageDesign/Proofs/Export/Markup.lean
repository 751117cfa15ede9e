/-
# PageDesign.Proofs.Export.Markup -- markup is nested as the design is

A page of markup is written step by step along a walk through the design.  Here the same page is
given by recursion on the design (`Dialect.forestText`): a leaf is its lines, a branch is the
lines that begin it, its children one level deeper, and the lines that end it.  All lines of a
component are set in by the depth of that component.

`markup_eq_forestText` says that every target that is markup writes this page between its
header and its footer, for every design and every width of a level.
-/
import PageDesign.Export.Target
import PageDesign.Proofs.Forest.Events
import PageDesign.Proofs.Forest.Preorder

namespace PageDesign

variable {ι : Type}

namespace Markup

theorem render_append (width : Nat) (ls ms : List Line) :
    render width (ls ++ ms) = render width ls ++ render width ms := by
  rw [render, List.map_append, String.join_append]
  rfl

end Markup

namespace Dialect

/-! ## The page by recursion -/

/-- The blanks in front of the lines of a component at some depth. -/
def padding (d : Dialect) (width depth : Nat) : String := Markup.spaces (width * (d.base + depth))

/-- Lines of a component at some depth, as text. -/
def block (d : Dialect) (width depth : Nat) (ls : List Markup.Line) : String :=
  String.join (ls.map fun l => d.padding width depth ++ l.render width)

mutual

/-- A tree as text, its root at depth `depth`. -/
def treeText (d : Dialect) (width depth : Nat) : Component ι → String
  | .leaf _ a l => d.block width depth (d.leaf a l)
  | .branch _ a f cs =>
    d.block width depth (d.enter a f) ++ d.forestText width (depth + 1) cs ++
      d.block width depth (d.exit f)

/-- A forest as text, its roots at depth `depth`. -/
def forestText (d : Dialect) (width depth : Nat) : Forest ι → String
  | [] => ""
  | c :: cs => d.treeText width depth c ++ d.forestText width depth cs

end

theorem forestText_append (d : Dialect) (width depth : Nat) (f g : Forest ι) :
    d.forestText width depth (f ++ g) =
      d.forestText width depth f ++ d.forestText width depth g := by
  induction f with
  | nil => simp [forestText]
  | cons c cs ih => simp only [List.cons_append, forestText, ih, String.append_assoc]

/-! ## The page step by step -/

/-- Setting lines in by some levels puts the blanks of these levels in front. -/
theorem render_map_shift (d : Dialect) (width depth : Nat) (ls : List Markup.Line) :
    Markup.render width (ls.map (·.shift (d.base + depth))) = d.block width depth ls := by
  rw [Markup.render, block, List.map_map]
  congr 1
  refine List.map_congr_left fun l _ => ?_
  have hspaces : Markup.spaces (width * (l.level + (d.base + depth))) =
      d.padding width depth ++ Markup.spaces (width * l.level) := by
    rw [padding, Markup.spaces, Markup.spaces, Markup.spaces, ← String.ofList_append,
      List.replicate_append_replicate, Nat.mul_add, Nat.add_comm]
  simp only [Function.comp_apply, Markup.Line.render, Markup.Line.shift, hspaces,
    String.append_assoc]

/-- The lines of the steps of a walk, indented. -/
def lines (d : Dialect) (es : List (Forest.Event ι)) : List Markup.Line :=
  es.flatMap fun e => (d.fragment e).map (·.shift (d.base + e.depth))

theorem render_lines_cons (d : Dialect) (width : Nat) (e : Forest.Event ι)
    (es : List (Forest.Event ι)) :
    Markup.render width (d.lines (e :: es)) =
      d.block width e.depth (d.fragment e) ++ Markup.render width (d.lines es) := by
  rw [lines, List.flatMap_cons, Markup.render_append, render_map_shift]
  rfl

theorem render_lines_append (d : Dialect) (width : Nat) (es es' : List (Forest.Event ι)) :
    Markup.render width (d.lines (es ++ es')) =
      Markup.render width (d.lines es) ++ Markup.render width (d.lines es') := by
  rw [lines, List.flatMap_append, Markup.render_append]
  rfl

/-- The lines of the steps through a forest are its text, by recursion. -/
theorem render_lines_steps (d : Dialect) (width depth : Nat) (f : Forest ι) :
    Markup.render width (d.lines (Forest.steps depth f)) = d.forestText width depth f := by
  induction f using Forest.induction generalizing depth with
  | nil => rfl
  | cons c cs ihc ihcs =>
      rw [Forest.steps, render_lines_append, forestText, ihcs]
      congr 1
      cases c with
      | leaf i a l =>
          rw [Forest.treeSteps, render_lines_cons, treeText]
          exact String.append_empty
      | branch i a f cs =>
          change ∀ depth, Markup.render width (d.lines (Forest.steps depth cs)) =
            d.forestText width depth cs at ihc
          rw [Forest.treeSteps, render_lines_cons, render_lines_append, render_lines_cons, ihc,
            treeText, String.append_assoc]
          congr 2
          exact String.append_empty

theorem render_body (d : Dialect) (width : Nat) (f : Forest ι) :
    Markup.render width (d.body f) = d.forestText width 0 f := by
  rw [body, Forest.events_eq]
  exact d.render_lines_steps width 0 f

theorem render_eq (d : Dialect) (width : Int) (f : Forest ι) :
    d.render width f = Markup.render width.toNat d.header ++ d.forestText width.toNat 0 f ++
      Markup.render width.toNat d.footer := by
  rw [render, Markup.render_append, Markup.render_append, render_body]

/-! ## Lines of a component -/

/-- The step with which a walk comes to a component. -/
def arrival (c : Component ι) : Forest.EventKind := if c.isBranch then .enter else .leaf

/-- A walk through a forest comes to each of its components. -/
theorem arrival_mem_steps {f : Forest ι} {c : Component ι} (h : c ∈ f.nodes) (depth : Nat) :
    ∃ n, ⟨arrival c, c, n⟩ ∈ Forest.steps depth f := by
  induction f using Forest.induction generalizing depth with
  | nil => simp at h
  | cons d cs ihc ihcs =>
      rw [Forest.nodes_cons, List.mem_cons, List.mem_append] at h
      rw [Forest.steps]
      rcases h with rfl | h | h
      · refine ⟨depth, List.mem_append_left _ ?_⟩
        cases c with
        | leaf i a l => exact List.mem_cons_self
        | branch i a g ds => exact List.mem_cons_self
      · cases d with
        | leaf j b m => simp [Component.children] at h
        | branch j b g ds =>
            obtain ⟨n, hn⟩ := ihc h (depth + 1)
            rw [Forest.treeSteps]
            exact ⟨n, List.mem_append_left _ (List.mem_cons_of_mem _ (List.mem_append_left _ hn))⟩
      · obtain ⟨n, hn⟩ := ihcs h depth
        exact ⟨n, List.mem_append_right _ hn⟩

/-- The lines with which a component begins; they are all that a leaf has. -/
def opening (d : Dialect) : Component ι → List Markup.Line
  | .leaf _ a l => d.leaf a l
  | .branch _ a f _ => d.enter a f

/-- The lines with which a component begins stand in the page of every forest that it is part of,
all of them set in by the same number of levels. -/
theorem exists_shift_mem_body (d : Dialect) {f : Forest ι} {c : Component ι} (h : c ∈ f.nodes) :
    ∃ n, ∀ line ∈ d.opening c, line.shift n ∈ d.body f := by
  obtain ⟨n, hn⟩ := arrival_mem_steps h 0
  refine ⟨d.base + n, fun line hline => ?_⟩
  rw [body, Forest.events_eq]
  refine List.mem_flatMap.mpr ⟨_, hn, List.mem_map_of_mem ?_⟩
  cases c with
  | leaf i a l => exact hline
  | branch i a g ds => exact hline

end Dialect

/-! ## Targets -/

/-- The targets that are markup. -/
def Target.markup : List Target := [.leptos, .html, .tailwind, .react, .vue, .svelte]

theorem ExportPlan.exists_dialect_iff (p : ExportPlan) :
    p.target ∈ Target.markup ↔ ∃ d, p.dialect? = some d := by
  obtain ⟨t, preset, width⟩ := p
  cases t <;> simp [Target.markup, ExportPlan.dialect?]

/-- A target that is markup can be had in every width of a level, and its page is its header,
the design by recursion and its footer.  The page of two designs side by side is the page of the
one and then that of the other. -/
theorem ExportPlan.markup_eq_forestText {p : ExportPlan} (hp : p.target ∈ Target.markup) :
    (∀ w : Int, ExportPlan.ofWidth p.target w = .ok ⟨p.target, .plain, some w⟩) ∧
      ∃ d, p.dialect? = some d ∧
        (∀ f : Forest Id, p.render f =
          Markup.render (p.width.getD d.width).toNat d.header ++
            d.forestText (p.width.getD d.width).toNat 0 f ++
            Markup.render (p.width.getD d.width).toNat d.footer) ∧
        ∀ (width depth : Nat) (f g : Forest Id), d.forestText width depth (f ++ g) =
          d.forestText width depth f ++ d.forestText width depth g := by
  obtain ⟨d, hd⟩ := (ExportPlan.exists_dialect_iff p).mp hp
  constructor
  · intro w
    obtain ⟨e, he⟩ := (ExportPlan.exists_dialect_iff ⟨p.target, .plain, some w⟩).mp hp
    simp only [ExportPlan.ofWidth, he, Option.isSome_some, if_true]
  · refine ⟨d, hd, fun f => ?_, d.forestText_append⟩
    rw [ExportPlan.render, hd]
    exact d.render_eq _ f

/-- A view with a card in it, three blanks for a level. -/
theorem ExportPlan.markup_eq_forestText_sample :
    Target.leptos ∈ Target.markup ∧
      ∃ d, (⟨.leptos, .thaw, some 3⟩ : ExportPlan).dialect? = some d ∧
        (⟨.leptos, .thaw, some 3⟩ : ExportPlan).render
            [.branch "a" none (.card {}) [.leaf "b" none (.text {})], .leaf "c" none (.button {})] =
          Markup.render 3 d.header ++
            (d.treeText 3 0 (.branch "a" none (.card {}) [.leaf "b" none (.text {})] : Component Id) ++
              d.treeText 3 0 (.leaf "c" none (.button {}) : Component Id)) ++
            Markup.render 3 d.footer := by
  have hmem : (⟨.leptos, .thaw, some 3⟩ : ExportPlan).target ∈ Target.markup := by decide
  obtain ⟨-, d, hd, hrender, -⟩ := ExportPlan.markup_eq_forestText hmem
  refine ⟨by decide, d, hd, ?_⟩
  rw [hrender]
  simp [Dialect.forestText]

end PageDesign
