/-
# PageDesign.Proofs.Export.Measure -- the lengths and counts in a styling

A styling states lengths in pixels and how often the columns and rows of a grid are repeated.
`measures` reads them off a text from left to right, each with its numeral as it is written.  A
character that can stand neither in a numeral nor in the words `px` and `repeat(` is a break: what
stands in front of it and what stands behind it can be read apart (`measuresFrom_break`).

Declarations are separated by breaks in every target, so that the measures of a styling are those of
its values (`measures_inline`, `measures_objectOf`, `measures_rules`), and the values are made from
the fields of a component (`measures_branch`).  Since everything that is loaded is within the
bounds, the numerals are those of natural numbers, the fixed shadow of a card apart
(`loadForest_measures`).
-/
import PageDesign.Proofs.Export.Conform
import PageDesign.Proofs.Export.Markup
import PageDesign.Proofs.Export.Rules
import PageDesign.Proofs.Export.Styling

namespace PageDesign

namespace Style

/-! ## Reading measures -/

/-- A number in a styling, as it is written. -/
inductive Measure where
  /-- A number of pixels. -/
  | length (numeral : String)
  /-- The number of columns or rows of a grid. -/
  | count (numeral : String)
  deriving DecidableEq, Repr

/-- What a repetition begins with. -/
def repetition : List Char := ['r', 'e', 'p', 'e', 'a', 't', '(']

/-- The count of a repetition that begins a text. -/
def countAhead (cs : List Char) : List Measure :=
  if repetition.isPrefixOf cs then
    [.count (String.ofList ((cs.drop repetition.length).takeWhile (IsNumeral ·)))]
  else []

/-- The measures of a text behind a numeral. -/
def measuresFrom (numeral : List Char) : List Char → List Measure
  | [] => []
  | 'p' :: 'x' :: cs => .length (String.ofList numeral) :: measuresFrom [] cs
  | c :: cs =>
    countAhead (c :: cs) ++ measuresFrom (if IsNumeral c then numeral ++ [c] else []) cs

/-- The measures of a text, in order. -/
def measures (s : String) : List Measure := measuresFrom [] s.toList

/-- A measure is a natural number, and a count is not zero. -/
def Measure.Natural : Measure → Prop
  | length w => ∃ n : Nat, w = n.repr
  | count w => ∃ n : Nat, 1 ≤ n ∧ w = n.repr

example : measures "0 4px 6px -1px rgb(0 0 0 / 0.1)" = [.length "4", .length "6", .length "-1"] := by
  decide +kernel

/-! ## Breaks -/

/-- A character that belongs to no measure. -/
def IsBreak (c : Char) : Prop := ¬ IsNumeral c ∧ c ∉ ['p', 'x'] ∧ c ∉ repetition

instance (c : Char) : Decidable (IsBreak c) := inferInstanceAs (Decidable (_ ∧ _))

/-- Breaks one after the other. -/
def AreBreaks (cs : List Char) : Prop := ∀ c ∈ cs, IsBreak c

instance (cs : List Char) : Decidable (AreBreaks cs) := List.decidableBAll _ cs

theorem takeWhile_break {p : Char → Bool} {c : Char} (hc : p c = false) (cs ds : List Char) :
    (cs ++ c :: ds).takeWhile p = cs.takeWhile p := by
  induction cs with
  | nil => simp [hc]
  | cons d cs ih => simp only [List.cons_append, List.takeWhile_cons, ih]

theorem isPrefixOf_break {c : Char} {w : List Char} (hc : c ∉ w) (cs ds : List Char) :
    w.isPrefixOf (cs ++ c :: ds) = w.isPrefixOf cs := by
  induction w generalizing cs with
  | nil => simp
  | cons d w ih =>
      rw [List.mem_cons, not_or] at hc
      obtain ⟨hne, hw⟩ := hc
      cases cs with
      | nil => simp [List.isPrefixOf, Ne.symm hne]
      | cons e cs => simp [List.isPrefixOf, ih hw]

theorem countAhead_break {c : Char} (hc : IsBreak c) (cs ds : List Char) :
    countAhead (cs ++ c :: ds) = countAhead cs := by
  rw [countAhead, countAhead, isPrefixOf_break hc.2.2]
  split
  next hprefix =>
    have hlength := (List.isPrefixOf_iff_prefix.mp hprefix).length_le
    rw [List.drop_append_of_le_length hlength, takeWhile_break (by simpa using hc.1)]
  next => rfl

/-- What stands in front of a break and what stands behind it can be read apart. -/
theorem measuresFrom_break {c : Char} (hc : IsBreak c) (numeral cs ds : List Char) :
    measuresFrom numeral (cs ++ c :: ds) = measuresFrom numeral cs ++ measuresFrom [] ds := by
  have hfirst : countAhead (c :: ds) = [] := countAhead_break hc [] ds
  have hpixels : c ≠ 'p' ∧ c ≠ 'x' := by simpa using hc.2.1
  fun_induction measuresFrom numeral cs with
  | case1 numeral =>
      rw [List.nil_append, measuresFrom, if_neg hc.1, hfirst]
      exact fun _ hp _ => hpixels.1 hp
  | case2 numeral cs ih => rw [List.cons_append, List.cons_append, measuresFrom, ih, List.cons_append]
  | case3 numeral e cs hne ih =>
      rw [List.cons_append, measuresFrom, ih, ← List.cons_append, countAhead_break hc,
        List.append_assoc]
      -- the letters of `px` do not stand on both sides of the break
      rintro rest hp heq
      cases cs with
      | nil => exact hpixels.2 (List.cons.inj heq).1
      | cons e' cs =>
          obtain ⟨rfl, -⟩ := List.cons.inj heq
          exact hne cs hp rfl

theorem measuresFrom_cons {c : Char} (hc : IsBreak c) (numeral cs : List Char) :
    measuresFrom numeral (c :: cs) = measuresFrom [] cs :=
  measuresFrom_break hc numeral [] cs

/-! ## Texts without measures -/

theorem countAhead_of_notMem {c : Char} (hc : c ∈ repetition) {cs : List Char} (h : c ∉ cs) :
    countAhead cs = [] :=
  if_neg fun hprefix => h ((List.isPrefixOf_iff_prefix.mp hprefix).subset hc)

/-- A text that lacks a letter of `px` and a letter of `repeat(` has no measures. -/
theorem measuresFrom_of_notMem {c : Char} (hc : c ∈ repetition) {cs : List Char} (hcs : c ∉ cs)
    (hx : 'x' ∉ cs) (numeral : List Char) : measuresFrom numeral cs = [] := by
  fun_induction measuresFrom numeral cs with
  | case1 => rfl
  | case2 numeral cs ih => simp at hx
  | case3 numeral d cs hne ih =>
      rw [countAhead_of_notMem hc hcs, List.nil_append]
      exact ih (fun h => hcs (List.mem_cons_of_mem _ h)) fun h => hx (List.mem_cons_of_mem _ h)

/-! ## Values -/

theorem measuresFrom_numeral {ds : List Char} (h : AreNumerals ds) (numeral cs : List Char) :
    measuresFrom numeral (ds ++ 'p' :: 'x' :: cs) =
      .length (String.ofList (numeral ++ ds)) :: measuresFrom [] cs := by
  induction ds generalizing numeral with
  | nil => rw [List.nil_append, measuresFrom, List.append_nil]
  | cons d ds ih =>
      obtain ⟨hd, hds⟩ := List.forall_mem_cons.mp h
      have hnone : countAhead (d :: (ds ++ 'p' :: 'x' :: cs)) = [] := by
        refine if_neg fun hprefix => ?_
        obtain ⟨rest, hrest⟩ := List.isPrefixOf_iff_prefix.mp hprefix
        obtain ⟨rfl, -⟩ := List.cons.inj hrest
        exact absurd hd (by decide)
      rw [List.cons_append, measuresFrom, hnone, if_pos hd, ih hds, List.nil_append,
        List.append_assoc, List.singleton_append]
      rintro rest rfl
      exact absurd hd (by decide)

theorem measuresFrom_pixels (n : Int) (cs : List Char) :
    measuresFrom [] ((pixels n).toList ++ cs) = .length (number n) :: measuresFrom [] cs := by
  have h := measuresFrom_numeral (Notation.areNumerals_integer n) [] cs
  simpa [pixels, number] using h

theorem measures_pixels (n : Int) : measures (pixels n) = [.length (number n)] := by
  have h := measuresFrom_pixels n []
  rwa [List.append_nil, measuresFrom] at h

theorem measures_spacing (s : Spacing) :
    measures (spacing s) = s.lengths.map fun n => .length (number n) := by
  have hblank (n : Int) (cs : List Char) : measuresFrom [] ((pixels n).toList ++ ' ' :: cs) =
      .length (number n) :: measuresFrom [] cs := by
    rw [measuresFrom_pixels, measuresFrom_cons (by decide)]
  have hvalue : (spacing s).toList = (pixels s.top).toList ++ ' ' :: ((pixels s.right).toList ++
      ' ' :: ((pixels s.bottom).toList ++ ' ' :: (pixels s.left).toList)) := by
    simp [spacing]
  rw [measures, hvalue, hblank, hblank, hblank]
  exact congrArg _ (congrArg _ (congrArg _ (measures_pixels s.left)))

theorem measures_repeat (n : Int) {size : String} (h : measures size = []) :
    measures ("repeat(" ++ number n ++ ", " ++ size) = [.count (number n)] := by
  have hnumerals := Notation.areNumerals_integer n
  have hvalue : ("repeat(" ++ number n ++ ", " ++ size).toList =
      ('r' :: ("epeat(".toList ++ (number n).toList)) ++ ',' :: ' ' :: size.toList := by
    simp
  have hcount : countAhead ('r' :: ("epeat(".toList ++ (number n).toList)) =
      [.count (number n)] := by
    have hprefix : repetition.isPrefixOf (repetition ++ (number n).toList) = true :=
      List.isPrefixOf_iff_prefix.mpr (List.prefix_append _ _)
    have hall : (number n).toList.takeWhile (IsNumeral ·) = (number n).toList :=
      List.takeWhile_eq_self_iff.mpr fun c hc => decide_eq_true (hnumerals c hc)
    show countAhead (repetition ++ (number n).toList) = _
    rw [countAhead, if_pos hprefix, List.drop_left, hall, String.ofList_toList]
  have hrest (c : Char) (hword : c ∉ "epeat(".toList) (hnumeral : ¬ IsNumeral c) :
      c ∉ "epeat(".toList ++ (number n).toList := by
    rw [List.mem_append, not_or]
    exact ⟨hword, fun hmem => hnumeral (hnumerals c hmem)⟩
  have hsize : measuresFrom [] size.toList = [] := h
  rw [measures, hvalue, measuresFrom_break (c := ',') (by decide),
    measuresFrom_cons (c := ' ') (by decide), hsize, measuresFrom, hcount,
    measuresFrom_of_notMem (by decide) (hrest 'r' (by decide) (by decide))
      (hrest 'x' (by decide) (by decide))]
  · rfl
  · exact fun _ h => absurd h (by decide)

/-- No measure stands in what plays an animation: none of its words has an `x` or a bracket. -/
theorem measures_shorthand (a : Animation) : measures a.shorthand = [] := by
  have hbracket : '(' ∉ a.shorthand.toList := Style.notMem_shorthand a (by decide) (by decide)
  have hunit : 'x' ∉ a.shorthand.toList := Style.notMem_shorthand a (by decide) (by decide)
  exact measuresFrom_of_notMem (by decide) hbracket hunit []

/-! ## Declarations -/

/-- The measures of the values of declarations, in order. -/
def stated (ds : List Declaration) : List Measure := ds.flatMap fun d => measures d.value

@[simp] theorem stated_nil : stated [] = [] := rfl

@[simp] theorem stated_cons (d : Declaration) (ds : List Declaration) :
    stated (d :: ds) = measures d.value ++ stated ds := rfl

theorem stated_append (ds es : List Declaration) : stated (ds ++ es) = stated ds ++ stated es :=
  List.flatMap_append

theorem stated_layout (l : Layout) :
    stated (layout l) = l.lengths.map fun n => .count (number n) := by
  cases l with
  | flex direction wrap align' justify' =>
      have hflex : measures "flex" = [] := by decide
      have hdirection : measures (Choice.name direction) = [] := by cases direction <;> decide
      have halign : measures (align align') = [] := by cases align' <;> decide
      have hjustify : measures (justify justify') = [] := by cases justify' <;> decide
      have hwrap : stated (if wrap then [⟨"flex-wrap", "wrap"⟩] else []) = [] := by
        cases wrap <;> decide
      simp [layout, stated_append, hflex, hdirection, halign, hjustify, hwrap, Layout.lengths]
  | grid columns rows =>
      have hgrid : measures "grid" = [] := by decide
      have hcolumns := measures_repeat columns (by decide : measures "1fr)" = [])
      have hrows := measures_repeat rows (by decide : measures "auto)" = [])
      have hcolumns' : ", " ++ "1fr)" = ", 1fr)" := rfl
      have hrows' : ", " ++ "auto)" = ", auto)" := rfl
      rw [String.append_assoc, hcolumns'] at hcolumns
      rw [String.append_assoc, hrows'] at hrows
      simp [layout, hgrid, hcolumns, hrows, Layout.lengths]
  | stack => decide

theorem stated_animation (a : Option Animation) : stated (animation a) = [] := by
  cases a with
  | none => rfl
  | some a =>
      rw [animation]
      split
      next => rfl
      next => simp [measures_shorthand]

/-- The measures of a branch: what its fields say, and what is fixed in the shadow and in the border
of a card. -/
def measured : Frame → List Measure
  | .container c =>
    (c.layout.lengths.map fun n => .count (number n)) ++
      (c.gap :: c.padding.lengths).map fun n => .length (number n)
  | .card c =>
    ([c.padding, c.borderRadius].map fun n => .length (number n)) ++
      (if c.shadow then [.length "4", .length "6", .length "-1"] else []) ++
      (if c.border then [.length "1"] else [])

theorem stated_frame (f : Frame) : stated (frame f) = measured f := by
  cases f with
  | container c =>
      rw [frame, container, stated_append, stated_layout]
      simp [gap, padding, measures_pixels, measures_spacing, measured]
  | card c =>
      have hshadow : stated (if c.shadow then [shadow] else []) =
          if c.shadow then [.length "4", .length "6", .length "-1"] else [] := by
        cases c.shadow <;> decide +kernel
      have hborder : stated (if c.border then [border] else []) =
          if c.border then [.length "1"] else [] := by
        cases c.border <;> decide +kernel
      rw [frame, card, stated_append, stated_append, hshadow, hborder]
      simp [cardBox, measures_pixels, measured]

theorem stated_branch (a : Option Animation) (f : Frame) : stated (branch a f) = measured f := by
  rw [branch, stated_append, stated_animation, List.append_nil, stated_frame]

/-! ## Texts with declarations -/

/-- No name of a property is taken for a measure, as it is or in camel case. -/
theorem measures_property : ∀ p ∈ properties, measures p = [] ∧ measures (React.camel p) = [] := by
  decide +kernel

theorem measuresFrom_breaks {sep : List Char} (hsep : AreBreaks sep) (cs : List Char) :
    measuresFrom [] (sep ++ cs) = measuresFrom [] cs := by
  induction sep with
  | nil => rfl
  | cons c sep ih =>
      obtain ⟨hc, hsep⟩ := List.forall_mem_cons.mp hsep
      rw [List.cons_append, measuresFrom_cons hc, ih hsep]

/-- Texts that are joined by breaks can be read one by one. -/
theorem measuresFrom_intercalate {c : Char} {sep : List Char} (hsep : AreBreaks (c :: sep))
    (ls : List (List Char)) :
    measuresFrom [] ((c :: sep).intercalate ls) = ls.flatMap (measuresFrom []) := by
  induction ls with
  | nil => rfl
  | cons l ls ih =>
      by_cases hls : ls = []
      · subst hls
        simp
      · obtain ⟨hc, hrest⟩ := List.forall_mem_cons.mp hsep
        rw [List.intercalate_cons_of_ne_nil hls, List.append_assoc, List.cons_append,
          measuresFrom_break hc, measuresFrom_breaks hrest, ih, List.flatMap_cons]

theorem measures_text {d : Declaration} (h : Plain d) : measures d.text = measures d.value := by
  have htext : d.text.toList = d.property.toList ++ ':' :: (' ' :: (d.value.toList ++ ';' :: [])) := by
    simp [Declaration.text]
  have hproperty : measuresFrom [] d.property.toList = [] := (measures_property _ h.property).1
  rw [measures, htext, measuresFrom_break (by decide), hproperty, measuresFrom_cons (by decide),
    measuresFrom_break (by decide), measuresFrom, List.append_nil, List.nil_append, measures]

theorem measures_inline {ds : List Declaration} (h : ∀ d ∈ ds, Plain d) :
    measures (inline ds) = stated ds := by
  have hsep : " ".toList = [' '] := rfl
  rw [measures, inline, String.toList_intercalate, hsep, measuresFrom_intercalate (by decide),
    List.map_map, List.flatMap_map, stated]
  exact List.flatMap_congr fun d hd => measures_text (h d hd)

theorem measures_entry {d : Declaration} (h : Plain d) :
    measures (React.entry d) = measures d.value := by
  have hproperty : measuresFrom [] (React.camel d.property).toList = [] :=
    (measures_property _ h.property).2
  have hquote : ": '".toList ++ d.value.toList ++ ['\x27'] =
      ':' :: (' ' :: '\x27' :: (d.value.toList ++ '\x27' :: [])) := by simp
  rw [measures, toList_entry h, hquote, measuresFrom_break (by decide), hproperty,
    measuresFrom_cons (by decide), measuresFrom_cons (by decide), measuresFrom_break (by decide),
    measuresFrom, List.append_nil, List.nil_append, measures]

theorem measures_styleObject {ds : List Declaration} (h : ∀ d ∈ ds, Plain d) :
    measures (React.styleObject ds) = stated ds := by
  have hobject : (React.styleObject ds).toList = "\x7b\x7b ".toList ++
      ([',', ' '].intercalate (ds.map fun d => (React.entry d).toList) ++
        ' ' :: "\x7d\x7d".toList) := by
    simp [React.styleObject, React.braced, Function.comp_def]
  have hend : measuresFrom [] "\x7d\x7d".toList = [] := by decide
  rw [measures, hobject, measuresFrom_breaks (by decide), measuresFrom_break (by decide), hend,
    measuresFrom_intercalate (by decide), List.append_nil, List.flatMap_map, stated]
  exact List.flatMap_congr fun d hd => measures_entry (h d hd)

/-! ## Stylesheets -/

theorem measures_lines (ls : List String) :
    measures (Stylesheet.text ls) = ls.flatMap measures := by
  induction ls with
  | nil => rfl
  | cons l ls ih =>
      have htext : (Stylesheet.text (l :: ls)).toList =
          l.toList ++ '\n' :: (Stylesheet.text ls).toList := by
        simp [Stylesheet.text]
      rw [measures, htext, measuresFrom_break (by decide), ← measures, ← measures, ih,
        List.flatMap_cons]

theorem measures_containerClass (id : Id) :
    measures ("." ++ Stylesheet.containerClass id ++ " \x7b") = [] := by
  have hnot (c : Char) (hwords : ∀ t ∈ [".", "container-", " \x7b"], c ∉ t.toList)
      (hdigit : ¬ Stylesheet.IsHexDigit c) :
      c ∉ ("." ++ Stylesheet.containerClass id ++ " \x7b").toList := by
    intro hmem
    obtain ⟨-, hdigits⟩ := Stylesheet.digits_ofText id
    have hclass : (Stylesheet.containerClass id).toList =
        "container-".toList ++ (Digest.ofText .xxhash64 id).toList.take 8 := by
      simp [Stylesheet.containerClass, Digest.truncate]
    simp only [String.toList_append, List.mem_append, hclass] at hmem
    rcases hmem with (hmem | hmem | hmem) | hmem
    · exact hwords "." (by simp) hmem
    · exact hwords "container-" (by simp) hmem
    · exact hdigit (hdigits c (List.mem_of_mem_take hmem))
    · exact hwords " \x7b" (by simp) hmem
  exact measuresFrom_of_notMem (by decide) (hnot '(' (by decide) (by decide))
    (hnot 'x' (by decide) (by decide)) []

/-- The measures of the rule for a component; only containers have one. -/
def ruled : Component Id → List Measure
  | .branch _ _ (.container c) _ => measured (.container c)
  | _ => []

theorem measures_ruleOf (c : Component Id) :
    (Stylesheet.ruleOf c).flatMap measures = ruled c := by
  cases c with
  | leaf i a l => rfl
  | branch i a fr cs =>
      cases fr with
      | card c => rfl
      | container c =>
          have hplain : ∀ d ∈ container c, Plain d := plain_frame (.container c)
          have hline (d : Declaration) (hd : d ∈ container c) :
              measures ("  " ++ d.text) = measures d.value := by
            rw [← measures_text (hplain d hd), measures, String.toList_append,
              measuresFrom_breaks (by decide), measures]
          have hstated : stated (container c) = measured (.container c) :=
            stated_frame (.container c)
          have hend : ["\x7d", ""].flatMap measures = [] := by decide
          rw [Stylesheet.ruleOf, Stylesheet.rule, List.flatMap_append, List.flatMap_append, hend,
            List.flatMap_singleton, measures_containerClass, List.flatMap_map,
            List.flatMap_congr hline, List.nil_append, List.append_nil]
          exact hstated

theorem measures_stylesheet (f : Forest Id) :
    measures (Stylesheet.render f) = Stylesheet.preamble.flatMap measures ++ f.nodes.flatMap ruled ++
      (Stylesheet.movements f).flatMap fun m => (Stylesheet.keyframes m).flatMap measures := by
  have hrules : (f.nodes.flatMap Stylesheet.ruleOf).flatMap measures = f.nodes.flatMap ruled := by
    rw [List.flatMap_assoc]
    exact List.flatMap_congr fun c _ => measures_ruleOf c
  show measures (Stylesheet.text (Stylesheet.lines f)) = _
  rw [measures_lines, Stylesheet.lines, List.flatMap_append, List.flatMap_append, hrules,
    List.flatMap_assoc]

/-! ## Natural numbers -/

theorem number_natCast (n : Nat) : number n = n.repr := by
  have hsign : ¬ (n : Int) < 0 := by omega
  simp [number, Notation.integer, Notation.signed, Nat.repr, hsign]

theorem natural_length {n : Int} (h : 0 ≤ n) : (Measure.length (number n)).Natural := by
  obtain ⟨k, rfl⟩ := Int.eq_ofNat_of_zero_le h
  exact ⟨k, number_natCast k⟩

theorem natural_count {n : Int} (h : 1 ≤ n) : (Measure.count (number n)).Natural := by
  obtain ⟨k, rfl⟩ := Int.eq_ofNat_of_zero_le (by omega : 0 ≤ n)
  exact ⟨k, by omega, number_natCast k⟩

/-- Within the bounds the measures of a branch are natural numbers, but for one in the shadow of a
card. -/
theorem natural_measured {f : Frame} (h : f.InRange) : ∀ m ∈ measured f, m.Natural ∨
    m = .length "-1" ∧ ∃ c, f = .card c ∧ c.shadow = true := by
  have hlength (n : Int) (hn : 0 ≤ n) := natural_length hn
  cases f with
  | container c =>
      obtain ⟨hlayout, hgap, hpadding⟩ := h
      simp only [measured, List.forall_mem_append, List.forall_mem_map, List.forall_mem_cons]
      exact ⟨fun n hn => .inl (natural_count (hlayout n hn)), .inl (natural_length hgap),
        fun n hn => .inl (natural_length (hpadding n hn))⟩
  | card c =>
      obtain ⟨hpadding, hradius⟩ := h
      simp only [measured, List.forall_mem_append, List.forall_mem_map, List.forall_mem_cons]
      refine ⟨⟨⟨.inl (natural_length hpadding), .inl (natural_length hradius), by simp⟩, ?_⟩, ?_⟩
      · split
        next hshadow =>
          simp only [List.forall_mem_cons]
          exact ⟨.inl ⟨4, rfl⟩, .inl ⟨6, rfl⟩, .inr ⟨trivial, c, rfl, hshadow⟩, by simp⟩
        next => simp
      · split
        next => exact List.forall_mem_singleton.mpr (.inl ⟨1, rfl⟩)
        next => simp

/-- The natural number that a numeral would be. -/
def read (w : String) : Nat := Nat.ofDigitChars 10 w.toList 0

theorem read_repr (n : Nat) : read n.repr = n := by
  simp [read, Nat.repr, Nat.ofDigitChars_ten_toDigits]

instance : (m : Measure) → Decidable m.Natural
  | .length w => decidable_of_iff (w = (read w).repr)
      ⟨fun h => ⟨_, h⟩, fun ⟨n, h⟩ => by rw [h, read_repr]⟩
  | .count w => decidable_of_iff (1 ≤ read w ∧ w = (read w).repr)
      ⟨fun h => ⟨_, h⟩, fun ⟨n, hn, h⟩ => by rw [h, read_repr]; exact ⟨hn, rfl⟩⟩

/-- The kinds of markup whose components are styled by declarations. -/
def dialects : List Dialect := [Html.dialect, Vue.dialect, Svelte.dialect, React.dialect]

theorem natural_fixed : (∀ d ∈ dialects, ∀ l ∈ d.header ++ d.footer, ∀ m ∈ measures l.text,
    m.Natural) ∧ ∀ l ∈ Stylesheet.preamble, ∀ m ∈ measures l, m.Natural := by
  decide +kernel

end Style

/-! ## Loaded designs -/

namespace Component

open Style

variable {ι : Type}

/-- What a branch is, apart from its children. -/
def frame? : Component ι → Option Frame
  | .leaf _ _ _ => none
  | .branch _ _ f _ => some f

/-- The declarations that a component is styled by. -/
def styling : Component ι → List Declaration
  | .leaf _ a _ => Style.animation a
  | .branch _ a f _ => Style.branch a f

/-- The measures of a component. -/
def measured (c : Component ι) : List Measure := (c.frame?.map Style.measured).getD []

theorem stated_styling (c : Component ι) : stated c.styling = c.measured := by
  cases c with
  | leaf i a l => exact stated_animation a
  | branch i a f cs => exact stated_branch a f

theorem plain_styling (c : Component ι) : ∀ d ∈ c.styling, Plain d := by
  cases c with
  | leaf i a l => exact plain_animation a
  | branch i a f cs => exact plain_branch a f

theorem inRange_loadForest {v : Json} {n n' : Minted} {f : Forest Id}
    (h : loadForest v n = .ok (f, n')) : Requirement.inRange.Met f := by
  obtain ⟨ds, hds, hfill⟩ := Schema.Check.map_eq_ok_iff.mp h
  have hds : Requirement.inRange.Met ds :=
    (Requirement.inRange_ensuredBy.of_read (.of_forall (fun _ => trivial) v)).2 ds hds
  refine Requirement.met_of_forget_eq ?_ hds
  rw [← forget_fillForest ds n, hfill]

/-- A line stands somewhere in the page of a design. -/
def HasLine (d : Dialect) (f : Forest ι) (line : String) : Prop := ∃ n, ⟨n, line⟩ ∈ d.body f

theorem hasLine_of_enter {d : Dialect} {f : Forest ι} {i : ι} {a : Option Animation} {fr : Frame}
    {cs : Forest ι} (h : .branch i a fr cs ∈ f.nodes) {line : String}
    (hline : d.enter a fr = [Markup.flat line]) : HasLine d f line := by
  obtain ⟨n, hn⟩ := d.exists_shift_mem_body h
  have hmem := hn (Markup.flat line) (by simp [Dialect.opening, hline])
  exact ⟨_, hmem⟩

open Markup in
/-- Nothing that is out of bounds is loaded.  In a loaded design, at every depth, times are numbers
from zero up, lengths are not negative and a grid has a column and a row, and the exported schema
accepts what the design is stored as, so that every field has the type that is declared for it.

The styling of a component states what its fields say, in every target: as the text of an attribute,
as an object, or as a rule.  All lengths and counts in it are written as natural numbers and no
count is zero, but for one length in the shadow that every shadowed card has.  What is fixed in a
page and in a stylesheet has natural numbers too, apart from keyframes. -/
theorem loadForest_measures {v : Json} {n n' : Minted} {f : Forest Id}
    (h : loadForest v n = .ok (f, n')) :
    (∀ c ∈ f.nodes, (∀ a ∈ c.animation, ∀ x ∈ [a.duration, a.delay],
        x ≠ .nan ∧ x.isBelow .zero = false) ∧ ∀ fr ∈ c.frame?, fr.InRange) ∧
      (∀ g, JsonSchema.Accepts (JsonSchema.schema g) (recordAll f)) ∧
      (∀ c ∈ f.nodes, measures (Style.inline c.styling) = c.measured ∧
        measures (React.styleObject c.styling) = c.measured ∧
        ∀ m ∈ c.measured, m.Natural ∨
          m = .length "-1" ∧ ∃ card, c.frame? = some (.card card) ∧ card.shadow = true) ∧
      (∀ i a fr cs, .branch i a fr cs ∈ f.nodes →
        let style := Style.branch a fr
        HasLine Html.dialect f (tag "div"
          (Html.on "click" fr.onClick ++ [.quoted "style" (Style.inline style)])) ∧
        HasLine Vue.dialect f (tag "div" (Vue.frameClass fr ++ Vue.on "click" fr.onClick ++
          [.quoted "style" (Style.inline style)])) ∧
        HasLine Svelte.dialect f (tag "div" (Vue.frameClass fr ++ Svelte.on "click" fr.onClick ++
          [.quoted "style" (Style.inline style)])) ∧
        HasLine React.dialect f (tag "div" (React.frameClass fr ++ React.on "Click" fr.onClick ++
          [.bare "style" (React.styleObject style)]))) ∧
      (∀ d ∈ dialects, ∀ l ∈ d.header ++ d.footer, ∀ m ∈ measures l.text, m.Natural) ∧
      measures (Stylesheet.render f) =
        Stylesheet.preamble.flatMap measures ++ f.nodes.flatMap ruled ++
          (Stylesheet.movements f).flatMap (fun m => (Stylesheet.keyframes m).flatMap measures) ∧
      ∀ m ∈ Stylesheet.preamble.flatMap measures ++ f.nodes.flatMap ruled, m.Natural := by
  have hf : Requirement.inRange.Met f := inRange_loadForest h
  obtain ⟨hpages, hpreamble⟩ := natural_fixed
  have hframe : ∀ c ∈ f.nodes, ∀ fr ∈ c.frame?, fr.InRange := by
    intro c hc fr hfr
    have hnode := hf c hc
    cases c with
    | leaf i a l => cases hfr
    | branch i a g cs =>
        cases hfr
        exact hnode.2
  refine ⟨fun c hc => ⟨fun a ha => ?_, hframe c hc⟩, JsonSchema.accepts_schema hf,
    fun c hc => ⟨?_, ?_, ?_⟩, ?_, hpages, measures_stylesheet f, ?_⟩
  · have hrange : a.InRange := by
      have hnode := hf c hc
      cases c with
      | leaf i b l => exact hnode.1 a ha
      | branch i b g cs => exact hnode.1 a ha
    simp only [List.forall_mem_cons]
    exact ⟨Binary64.isNonneg_iff.mp hrange.duration, Binary64.isNonneg_iff.mp hrange.delay,
      by simp⟩
  · rw [measures_inline c.plain_styling, c.stated_styling]
  · rw [measures_styleObject c.plain_styling, c.stated_styling]
  · intro m hm
    cases c with
    | leaf i a l => cases hm
    | branch i a fr cs =>
        obtain hnatural | ⟨hm, card, hcard, hshadow⟩ :=
          natural_measured (hframe _ hc fr rfl) m hm
        · exact .inl hnatural
        · exact .inr ⟨hm, card, congrArg some hcard, hshadow⟩
  · intro i a fr cs hc style
    have hstyled : styled style = [.quoted "style" (Style.inline style)] := styled_branch a fr
    have hobject : React.styled style = [.bare "style" (React.styleObject style)] :=
      if_neg (by simp [style, branch_ne_nil])
    rw [← hstyled, ← hobject]
    exact ⟨hasLine_of_enter hc rfl, hasLine_of_enter hc rfl, hasLine_of_enter hc rfl,
      hasLine_of_enter hc rfl⟩
  · refine List.forall_mem_append.mpr ⟨?_, ?_⟩
    · intro m hm
      obtain ⟨l, hl, hm⟩ := List.mem_flatMap.mp hm
      exact hpreamble l hl m hm
    · intro m hm
      obtain ⟨c, hc, hm⟩ := List.mem_flatMap.mp hm
      cases c with
      | leaf i a l => cases hm
      | branch i a fr cs =>
          cases fr with
          | card k => cases hm
          | container k =>
              -- only cards have a shadow
              obtain hnatural | ⟨-, k', hk, -⟩ := natural_measured (hframe _ hc _ rfl) m hm
              · exact hnatural
              · cases hk

/-- A grid whose numbers are given in three forms, with a card in it. -/
theorem loadForest_measures_sample :
    let v : Json := .arr [.obj [("kind", .str "container"), ("gap", .str " 012 "),
      ("layout", .obj [("type", .str "grid"), ("columns", .bool true)]),
      ("children", .arr [.obj [("kind", .str "card"), ("id", .str "c"),
        ("padding", .str "+1_0.0")]])]]
    let card : Component Id := .branch "c" none (.card { padding := 10 }) []
    let grid : Component Id := .branch "cmp_00000000000000000000000001" none
      (.container { layout := .grid 1 2, gap := 12 }) [card]
    loadForest v 0 = .ok ([grid], 1) ∧
      measures (Style.inline grid.styling) = [.count "1", .count "2", .length "12", .length "0",
        .length "0", .length "0", .length "0"] ∧
      measures (React.styleObject card.styling) = [.length "10", .length "8", .length "4",
        .length "6", .length "-1", .length "1"] ∧
      HasLine Html.dialect [grid] ("<div style=\"display: grid; " ++
        "grid-template-columns: repeat(1, 1fr); grid-template-rows: repeat(2, auto); gap: 12px; " ++
        "padding: 0px 0px 0px 0px;\">") := by
  intro v card grid
  have hload : loadForest v 0 = .ok ([grid], 1) := rfl
  obtain ⟨-, -, hstyles, hpages, -⟩ := loadForest_measures hload
  have hgrid : grid ∈ Forest.nodes [grid] := by simp [Forest.nodes_cons]
  have hcard : card ∈ Forest.nodes [grid] := by simp [Forest.nodes_cons, grid, children]
  obtain ⟨hhtml, -⟩ := hpages _ _ _ _ hgrid
  exact ⟨hload, (hstyles grid hgrid).1.trans rfl, (hstyles card hcard).2.1.trans rfl, hhtml⟩

/-- The shadow of a card and the keyframes of a movement have lengths below zero, and the width of a
picture is a text of its own. -/
theorem measures_below_zero :
    let card := "<div style=\"padding: 16px; border-radius: 8px; " ++
      "box-shadow: 0 4px 6px -1px rgb(0 0 0 / 0.1); border: 1px solid #e5e7eb;\">"
    let image := "<img src=\"\" alt=\"\" width=\"-5px\" " ++
      "style=\"animation: slideInDown 0s ease-in-out 0s 1 both;\" />"
    let leaf : Component Id := .leaf "b" (some { movement := .slideInDown, duration := .zero })
      (.image { width := some "-5px" })
    let f : Forest Id := [.branch "a" none (.card {}) [leaf]]
    loadForest (recordAll f) 0 = .ok (f, 0) ∧
      HasLine Html.dialect f card ∧ .length "-1" ∈ measures card ∧
      HasLine Html.dialect f image ∧ .length "-5" ∈ measures image ∧
      .length "-20" ∈ measures (Stylesheet.render f) ∧
      ∀ w ∈ ["-1", "-5", "-20"], ¬ (Measure.length w).Natural := by
  intro card image leaf f
  have hleaf : leaf ∈ f.nodes := by simp [f, Forest.nodes_cons, children]
  have hcard : .branch "a" none (.card {}) [leaf] ∈ f.nodes := by simp [f, Forest.nodes_cons]
  have hrange : Requirement.inRange.Met f := by
    refine Requirement.met_cons_iff.mpr ⟨⟨by simp, by decide, by decide⟩, ?_, Requirement.met_nil⟩
    refine Requirement.met_cons_iff.mpr ⟨⟨?_, trivial⟩, Requirement.met_nil, Requirement.met_nil⟩
    rintro a ⟨⟩
    exact ⟨rfl, rfl⟩
  have hload : loadForest (recordAll f) 0 = .ok (f, 0) := by
    rw [loadForest, Draft.readForest_record hrange]
    exact congrArg Schema.Check.ok (fillForest_some f 0)
  obtain ⟨n, hn⟩ := Html.dialect.exists_shift_mem_body hleaf
  have himage := hn (Markup.flat image) (List.mem_singleton.mpr rfl)
  have hmoves : .slideInDown ∈ Stylesheet.movements f := by decide +kernel
  refine ⟨hload, hasLine_of_enter hcard rfl, by decide +kernel, ⟨_, himage⟩, by decide +kernel, ?_,
    by decide +kernel⟩
  rw [measures_stylesheet]
  exact List.mem_append_right _ (List.mem_flatMap.mpr ⟨_, hmoves, by decide +kernel⟩)

end Component

end PageDesign
