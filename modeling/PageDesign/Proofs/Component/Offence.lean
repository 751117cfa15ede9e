/-
# PageDesign.Proofs.Component.Offence -- a check reports the first offence in pre-order

`Lawful` says that a component obeys the rule for its kind, and `Offends` which error a component
that does not obey it gives; both are about texts and characters, apart from the functions that
test them (`checkNode_eq_ok_iff`, `checkNode_eq_error_iff`).

Three checks go through trees with such rules: one for the rules alone, one for identities alone,
and one for both.  They are one loop with a stack of trees that remembers the identities it has
seen (`Rule.look`), with another test in each.  `ReportsFirst` says what such a check reports: it
succeeds exactly if the listing in pre-order is clean, and otherwise its error is that of the first
component that offends, given the ones before it.
-/
import PageDesign.Proofs.Component.Sound
import PageDesign.Proofs.Forest.Loops

namespace PageDesign

variable {ι : Type}

theorem check_bind_eq_error {ε β : Type} {check : Except ε Unit} {k : Unit → Except ε β} {e : ε} :
    (check >>= k) = .error e ↔ check = .error e ∨ check = .ok () ∧ k () = .error e := by
  cases check with
  | error e => simp [bind, Except.bind]
  | ok u => simp [bind, Except.bind]

theorem error_eq_error_iff {ε β : Type} {d e : ε} :
    (.error d : Except ε β) = .error e ↔ e = d := by
  constructor
  · intro h
    cases h
    rfl
  · rintro rfl
    rfl

namespace Rule

/-! ## Texts -/

/-- A text has nothing but blanks. -/
def Blank (s : String) : Prop := ∀ c ∈ s.toList, Text.isBlank c = true

/-- A letter without an accent. -/
def Letter (c : Char) : Prop := ('a' ≤ c ∧ c ≤ 'z') ∨ ('A' ≤ c ∧ c ≤ 'Z')

/-- A decimal digit. -/
def Digit (c : Char) : Prop := '0' ≤ c ∧ c ≤ '9'

/-- A text is a letter or an underscore, and behind it, up to the end, there are letters, digits and
underscores. -/
def Identifier (s : String) : Prop :=
  ∃ c cs, s.toList = c :: cs ∧ (Letter c ∨ c = '_') ∧ ∀ d ∈ cs, Letter d ∨ Digit d ∨ d = '_'

/-- Somewhere in a text there is a bracket that opens, then a character that does not close it, and
anywhere behind that character a bracket that closes. -/
def Tagged (s : String) : Prop :=
  ∃ before c inner behind, s.toList = before ++ '<' :: c :: (inner ++ '>' :: behind) ∧ c ≠ '>'

theorem isBlankText_iff {s : String} : Text.isBlankText s = true ↔ Blank s := by
  unfold Text.isBlankText Blank
  exact List.all_eq_true

theorem isAlpha_iff {c : Char} : c.isAlpha = true ↔ Letter c := by
  have hupper : c.isUpper = true ↔ 'A' ≤ c ∧ c ≤ 'Z' := decide_eq_true_iff
  have hlower : c.isLower = true ↔ 'a' ≤ c ∧ c ≤ 'z' := by
    show (decide ('a' ≤ c) && decide (c ≤ 'z')) = true ↔ 'a' ≤ c ∧ c ≤ 'z'
    rw [Bool.and_eq_true, decide_eq_true_eq, decide_eq_true_eq]
  show (c.isUpper || c.isLower) = true ↔ Letter c
  rw [Bool.or_eq_true, hupper, hlower]
  exact Or.comm

theorem isDigit_iff {c : Char} : c.isDigit = true ↔ Digit c := by
  unfold Digit
  simp only [Char.isDigit, Bool.and_eq_true, decide_eq_true_eq, Char.le_def]

theorem isIdentifier_iff {s : String} : isIdentifier s.toList = true ↔ Identifier s := by
  unfold Identifier
  cases s.toList with
  | nil => simp [isIdentifier]
  | cons c cs =>
      simp only [isIdentifier, isNameStart, isNameChar, Char.isAlphanum, Bool.and_eq_true,
        Bool.or_eq_true, beq_iff_eq, List.all_eq_true, isAlpha_iff, isDigit_iff, or_assoc,
        List.cons.injEq]
      constructor
      · intro h
        exact ⟨c, cs, ⟨rfl, rfl⟩, h⟩
      · rintro ⟨d, ds, ⟨rfl, rfl⟩, h⟩
        exact h

/-- An identifier is not blank, so the order of the two tests of a name makes no difference. -/
theorem Identifier.not_blank {s : String} (h : Identifier s) : ¬ Blank s := by
  obtain ⟨c, cs, hs, hstart, -⟩ := h
  intro hblank
  have hc : Text.isBlank c = true := hblank c (by rw [hs]; exact List.mem_cons_self)
  -- blanks end at U+0020 or begin at U+0085, and the characters of a name are between them
  simp only [Text.isBlank, Text.isWhiteSpace, Bool.or_eq_true, Bool.and_eq_true, beq_iff_eq,
    decide_eq_true_eq] at hc
  have hrange : 65 ≤ c.toNat ∧ c.toNat ≤ 122 := by
    rcases hstart with (⟨hl, hr⟩ | ⟨hl, hr⟩) | rfl
    · exact ⟨Nat.le_trans (by decide) hl, hr⟩
    · exact ⟨hl, Nat.le_trans hr (by decide)⟩
    · decide
  omega

theorem startsWithTag_iff {cs : List Char} : startsWithTag cs = true ↔
    ∃ c inner behind, cs = '<' :: c :: (inner ++ '>' :: behind) ∧ c ≠ '>' := by
  constructor
  · intro h
    unfold startsWithTag at h
    split at h
    next c rest =>
      obtain ⟨hc, hrest⟩ := Bool.and_eq_true_iff.mp h
      obtain ⟨inner, behind, rfl⟩ := List.append_of_mem (List.contains_iff_mem.mp hrest)
      exact ⟨c, inner, behind, rfl, bne_iff_ne.mp hc⟩
    next => cases h
  · rintro ⟨c, inner, behind, rfl, hc⟩
    show (c != '>' && (inner ++ '>' :: behind).contains '>') = true
    rw [Bool.and_eq_true, bne_iff_ne, List.contains_iff_mem]
    exact ⟨hc, by simp⟩

theorem hasTag_iff {cs : List Char} : hasTag cs = true ↔
    ∃ before c inner behind, cs = before ++ '<' :: c :: (inner ++ '>' :: behind) ∧ c ≠ '>' := by
  induction cs with
  | nil => simp [hasTag]
  | cons d cs ih =>
      rw [hasTag, Bool.or_eq_true, startsWithTag_iff, ih]
      constructor
      · rintro (⟨c, inner, behind, heq, hc⟩ | ⟨before, c, inner, behind, rfl, hc⟩)
        · exact ⟨[], c, inner, behind, heq, hc⟩
        · exact ⟨d :: before, c, inner, behind, rfl, hc⟩
      · rintro ⟨before, c, inner, behind, heq, hc⟩
        cases before with
        | nil => exact .inl ⟨c, inner, behind, heq, hc⟩
        | cons x before =>
            rw [List.cons_append, List.cons.injEq] at heq
            exact .inr ⟨before, c, inner, behind, heq.2, hc⟩

/-- The shortest tag has three characters. -/
theorem Tagged.length_le {s : String} (h : Tagged s) : minTemplateLength ≤ s.length := by
  obtain ⟨before, c, inner, behind, hs, -⟩ := h
  rw [← String.length_toList, hs]
  simp only [minTemplateLength, List.length_append, List.length_cons]
  omega

instance (s : String) : Decidable (Blank s) := decidable_of_iff _ isBlankText_iff

instance (s : String) : Decidable (Identifier s) := decidable_of_iff _ isIdentifier_iff

instance (s : String) : Decidable (Tagged s) :=
  decidable_of_iff (hasTag s.toList = true) hasTag_iff

theorem checkName_eq_ok_iff {s : String} : checkName s = .ok () ↔ Identifier s := by
  unfold checkName
  simp only [isBlankText_iff, isIdentifier_iff]
  split
  next hblank => simpa using fun h : Identifier s => h.not_blank hblank
  next =>
    split
    next hname => exact iff_of_true rfl hname
    next hname => simpa using hname

theorem checkName_eq_error_iff {s : String} {e : Offence} : checkName s = .error e ↔
    Blank s ∧ e = .emptyName ∨ ¬ Blank s ∧ ¬ Identifier s ∧ e = .invalidName s := by
  unfold checkName
  simp only [isBlankText_iff, isIdentifier_iff]
  split
  next hblank =>
    rw [error_eq_error_iff]
    simp [hblank]
  next hblank => split <;> simp_all [eq_comm]

theorem checkTemplate_eq_ok_iff {s : String} :
    checkTemplate s = .ok () ↔ ¬ Blank s ∧ Tagged s := by
  have htag : hasTag s.toList = true ↔ Tagged s := hasTag_iff
  unfold checkTemplate
  simp only [isBlankText_iff, htag]
  split
  next hblank => simp [hblank]
  next hblank =>
    split
    next hshort =>
      have huntagged : ¬ Tagged s := fun h => Nat.not_lt_of_le h.length_le hshort
      simp [huntagged]
    next =>
      split
      next htagged => simp [hblank, htagged]
      next huntagged => simp [huntagged]

theorem checkTemplate_eq_error_iff {s : String} {e : Offence} : checkTemplate s = .error e ↔
    Blank s ∧ e = .emptyTemplate ∨
    ¬ Blank s ∧ s.length < minTemplateLength ∧ e = .invalidTemplate "template too short" ∨
    ¬ Blank s ∧ minTemplateLength ≤ s.length ∧ ¬ Tagged s ∧
      e = .invalidTemplate "template must contain at least one HTML tag" := by
  have htag : hasTag s.toList = true ↔ Tagged s := hasTag_iff
  unfold checkTemplate
  simp only [isBlankText_iff, htag]
  split
  next hblank =>
    rw [error_eq_error_iff]
    simp [hblank]
  next hblank =>
    split
    next hshort =>
      rw [error_eq_error_iff]
      simp [hblank, hshort, Nat.not_le_of_lt hshort]
    next hlong =>
      have hlong : minTemplateLength ≤ s.length := Nat.le_of_not_lt hlong
      have hnot : ¬ s.length < minTemplateLength := Nat.not_lt_of_le hlong
      split
      next htagged => simp [hblank, hnot, htagged]
      next huntagged =>
        rw [error_eq_error_iff]
        simp [hblank, hnot, hlong, huntagged]

end Rule

/-! ## Single components -/

open Rule (Blank Identifier Tagged)

/-- A component obeys the rule for its kind. -/
def Component.Lawful : Component ι → Prop
  | .leaf _ _ (.button b) => ¬ Blank b.label
  | .leaf _ _ (.image i) => ¬ Blank i.src
  | .leaf _ _ (.custom c) =>
    Identifier c.name ∧ ∃ t, c.template = some t ∧ ¬ Blank t ∧ Tagged t
  | _ => True

/-- A component breaks the rule for its kind, and this is the error for it.  A name is looked at
before the markup. -/
inductive Component.Offends : Component ι → Offence → Prop
  | label {i : ι} {a : Option Animation} {b : Button} : Blank b.label →
      Offends (.leaf i a (.button b)) (.invalidProperty "label" "label cannot be empty")
  | src {i : ι} {a : Option Animation} {m : Image} : Blank m.src →
      Offends (.leaf i a (.image m)) (.invalidProperty "src" "image source cannot be empty")
  | emptyName {i : ι} {a : Option Animation} {c : Custom} : Blank c.name →
      Offends (.leaf i a (.custom c)) .emptyName
  | invalidName {i : ι} {a : Option Animation} {c : Custom} : ¬ Blank c.name →
      ¬ Identifier c.name → Offends (.leaf i a (.custom c)) (.invalidName c.name)
  | noTemplate {i : ι} {a : Option Animation} {c : Custom} : Identifier c.name →
      c.template = none → Offends (.leaf i a (.custom c)) .emptyTemplate
  | emptyTemplate {i : ι} {a : Option Animation} {c : Custom} {t : String} :
      Identifier c.name → c.template = some t → Blank t →
      Offends (.leaf i a (.custom c)) .emptyTemplate
  | shortTemplate {i : ι} {a : Option Animation} {c : Custom} {t : String} :
      Identifier c.name → c.template = some t → ¬ Blank t → t.length < 3 →
      Offends (.leaf i a (.custom c)) (.invalidTemplate "template too short")
  | untagged {i : ι} {a : Option Animation} {c : Custom} {t : String} :
      Identifier c.name → c.template = some t → ¬ Blank t → 3 ≤ t.length → ¬ Tagged t →
      Offends (.leaf i a (.custom c))
        (.invalidTemplate "template must contain at least one HTML tag")

namespace Rule

theorem blank_empty : Blank "" := by simp [Blank]

theorem checkNode_eq_ok_iff {c : Component ι} : checkNode c = .ok () ↔ c.Lawful := by
  cases c with
  | branch i a f cs => exact iff_of_true rfl trivial
  | leaf i a l =>
      cases l with
      | button b =>
          show checkLeaf (.button b) = .ok () ↔ ¬ Blank b.label
          simp [checkLeaf, isBlankText_iff]
      | image m =>
          show checkLeaf (.image m) = .ok () ↔ ¬ Blank m.src
          simp [checkLeaf, isBlankText_iff]
      | custom c =>
          show (checkName c.name >>= fun _ => checkTemplate (c.template.getD "")) = .ok () ↔ _
          rw [check_bind_eq_ok, checkName_eq_ok_iff, checkTemplate_eq_ok_iff]
          cases h : c.template with
          | none => simp [Component.Lawful, h, blank_empty]
          | some t => simp [Component.Lawful, h]
      | _ => exact iff_of_true rfl trivial

theorem checkLeaf_button {b : Button} {e : Offence} : checkLeaf (.button b) = .error e ↔
    Blank b.label ∧ e = .invalidProperty "label" "label cannot be empty" := by
  simp only [checkLeaf, isBlankText_iff]
  split
  next hblank =>
    rw [error_eq_error_iff]
    simp [hblank]
  next hfull => simp [hfull]

theorem checkLeaf_image {m : Image} {e : Offence} : checkLeaf (.image m) = .error e ↔
    Blank m.src ∧ e = .invalidProperty "src" "image source cannot be empty" := by
  simp only [checkLeaf, isBlankText_iff]
  split
  next hblank =>
    rw [error_eq_error_iff]
    simp [hblank]
  next hfull => simp [hfull]

theorem checkNode_eq_error_iff {c : Component ι} {e : Offence} :
    checkNode c = .error e ↔ c.Offends e := by
  constructor
  · intro h
    cases c with
    | branch i a f cs => cases h
    | leaf i a l =>
        cases l with
        | button b =>
            obtain ⟨hblank, rfl⟩ := checkLeaf_button.mp h
            exact .label hblank
        | image m =>
            obtain ⟨hblank, rfl⟩ := checkLeaf_image.mp h
            exact .src hblank
        | custom c =>
            change (checkName c.name >>= fun _ => checkTemplate (c.template.getD "")) = _ at h
            rw [check_bind_eq_error, checkName_eq_error_iff, checkName_eq_ok_iff,
              checkTemplate_eq_error_iff] at h
            rcases h with (⟨hblank, rfl⟩ | ⟨hblank, hname, rfl⟩) | ⟨hname, htemplate⟩
            · exact .emptyName hblank
            · exact .invalidName hblank hname
            · cases hc : c.template with
              | none =>
                  rw [hc, Option.getD_none] at htemplate
                  rcases htemplate with ⟨-, rfl⟩ | ⟨hfull, -⟩ | ⟨hfull, -⟩
                  · exact .noTemplate hname hc
                  · exact absurd blank_empty hfull
                  · exact absurd blank_empty hfull
              | some t =>
                  rw [hc, Option.getD_some] at htemplate
                  rcases htemplate with ⟨hblank, rfl⟩ | ⟨hfull, hshort, rfl⟩ |
                    ⟨hfull, hlong, htag, rfl⟩
                  · exact .emptyTemplate hname hc hblank
                  · exact .shortTemplate hname hc hfull hshort
                  · exact .untagged hname hc hfull hlong htag
        | _ => cases h
  · intro h
    -- a custom component gets to its markup only with a name that is an identifier
    have hcustom {i : ι} {a : Option Animation} {c : Custom} {e : Offence}
        (hname : Identifier c.name) (h : checkTemplate (c.template.getD "") = .error e) :
        checkNode (.leaf i a (.custom c)) = .error e :=
      check_bind_eq_error.mpr (.inr ⟨checkName_eq_ok_iff.mpr hname, h⟩)
    cases h with
    | label hblank => exact checkLeaf_button.mpr ⟨hblank, rfl⟩
    | src hblank => exact checkLeaf_image.mpr ⟨hblank, rfl⟩
    | emptyName hblank =>
        exact check_bind_eq_error.mpr (.inl (checkName_eq_error_iff.mpr (.inl ⟨hblank, rfl⟩)))
    | invalidName hblank hname =>
        exact check_bind_eq_error.mpr
          (.inl (checkName_eq_error_iff.mpr (.inr ⟨hblank, hname, rfl⟩)))
    | noTemplate hname hc =>
        refine hcustom hname (checkTemplate_eq_error_iff.mpr (.inl ⟨?_, rfl⟩))
        rw [hc]
        exact blank_empty
    | emptyTemplate hname hc hblank =>
        refine hcustom hname (checkTemplate_eq_error_iff.mpr (.inl ⟨?_, rfl⟩))
        rw [hc]
        exact hblank
    | shortTemplate hname hc hfull hshort =>
        refine hcustom hname (checkTemplate_eq_error_iff.mpr (.inr (.inl ⟨?_, ?_, rfl⟩)))
        · rw [hc]
          exact hfull
        · rw [hc]
          exact hshort
    | untagged hname hc hfull hlong htag =>
        rw [hcustom hname]
        rw [checkTemplate_eq_error_iff, hc]
        exact .inr (.inr ⟨hfull, hlong, htag, rfl⟩)

/-! ## Checks of trees -/

open Loop (Turn scan Ends treeTurn)

/-- A check with one test for all components, which knows the identities seen before: it stops at
the first component that fails the test. -/
def look (test : List ι → Component ι → Except Offence Unit) (seen : List ι) (c : Component ι) :
    Turn (List ι) (Except Offence Unit) :=
  match test seen c with
  | .error e => .stop (.error e)
  | .ok () => .goOn (c.id :: seen)

/-- The check of components one by one. -/
def inspect (test : List ι → Component ι → Except Offence Unit) (seen : List ι)
    (nodes : List (Component ι)) : Except Offence Unit :=
  scan (look test) (fun _ => .ok ()) seen nodes

/-- Components are tested for the rule for their kind. -/
def testRule (_ : List ι) (c : Component ι) : Except Offence Unit := checkNode c

/-- Components are tested for an identity that is neither taken nor seen. -/
def testFree (taken seen : List Id) (c : Component Id) : Except Offence Unit :=
  if c.id ∈ taken ∨ c.id ∈ seen then .error (.duplicateId c.id) else .ok ()

/-- Components are tested for an identity that is not seen, and then for their rule. -/
def testBoth (seen : List Id) (c : Component Id) : Except Offence Unit :=
  if c.id ∈ seen then .error (.duplicateId c.id) else checkNode c

section Inspect

variable {test : List ι → Component ι → Except Offence Unit}

theorem inspect_cons (seen : List ι) (c : Component ι) (rest : List (Component ι)) :
    inspect test seen (c :: rest) =
      (test seen c >>= fun _ => inspect test (c.id :: seen) rest) := by
  unfold inspect
  cases h : test seen c with
  | error e =>
      have hstop : look test seen c = .stop (.error e) := by rw [look, h]
      exact Loop.scan_of_stop hstop rest
  | ok u =>
      have hgo : look test seen c = .goOn (c.id :: seen) := by rw [look, h]
      exact Loop.scan_of_goOn hgo rest

/-- The error is that of the first component that fails its test; those before it pass. -/
theorem inspect_eq_error_iff {seen : List ι} {nodes : List (Component ι)} {e : Offence} :
    inspect test seen nodes = .error e ↔ ∃ before c behind, nodes = before ++ c :: behind ∧
      inspect test seen before = .ok () ∧
      test ((before.map (·.id)).reverse ++ seen) c = .error e := by
  induction nodes generalizing seen with
  | nil => simp [inspect, scan]
  | cons d nodes ih =>
      rw [inspect_cons, check_bind_eq_error, ih]
      constructor
      · rintro (hd | ⟨hd, before, c, behind, rfl, hbefore, hc⟩)
        · exact ⟨[], d, nodes, rfl, rfl, hd⟩
        · refine ⟨d :: before, c, behind, rfl, ?_, ?_⟩
          · rw [inspect_cons, check_bind_eq_ok]
            exact ⟨hd, hbefore⟩
          · rwa [List.map_cons, List.reverse_cons, List.append_assoc, List.singleton_append]
      · rintro ⟨before, c, behind, heq, hbefore, hc⟩
        cases before with
        | nil =>
            cases heq
            exact .inl hc
        | cons x before =>
            cases heq
            rw [inspect_cons, check_bind_eq_ok] at hbefore
            rw [List.map_cons, List.reverse_cons, List.append_assoc, List.singleton_append] at hc
            exact .inr ⟨hbefore.1, before, c, behind, rfl, hbefore.2, hc⟩

end Inspect

theorem inspect_testRule (seen : List ι) (nodes : List (Component ι)) :
    inspect testRule seen nodes = nodes.forM checkNode := by
  induction nodes generalizing seen with
  | nil => rfl
  | cons c nodes ih =>
      have hrest : inspect testRule (c.id :: seen) nodes = nodes.forM checkNode :=
        ih (c.id :: seen)
      rw [inspect_cons, hrest]
      rfl

theorem inspect_testFree (taken seen : List Id) (nodes : List (Component Id)) :
    inspect (testFree taken) seen nodes = checkIds (seen ++ taken) (nodes.map (·.id)) := by
  induction nodes generalizing seen with
  | nil => rfl
  | cons c nodes ih =>
      rw [inspect_cons, ih, List.map_cons, checkIds]
      by_cases hused : c.id ∈ taken ∨ c.id ∈ seen
      · have hmem : c.id ∈ seen ++ taken := List.mem_append.mpr hused.symm
        simp only [testFree, hused, List.contains_iff_mem, hmem, if_true]
        rfl
      · have hmem : c.id ∉ seen ++ taken := fun h => hused (List.mem_append.mp h).symm
        simp only [testFree, hused, List.contains_iff_mem, hmem, if_false]
        rfl

theorem inspect_testBoth (seen : List Id) (nodes : List (Component Id)) :
    inspect testBoth seen nodes = checkNodes seen nodes := by
  induction nodes generalizing seen with
  | nil => rfl
  | cons c nodes ih =>
      rw [inspect_cons, ih, checkNodes]
      by_cases hseen : c.id ∈ seen
      · simp only [testBoth, hseen, List.contains_iff_mem, if_true]
        rfl
      · simp only [testBoth, hseen, List.contains_iff_mem, if_false]

end Rule

/-! ## The first offence -/

open Loop (Ends treeTurn)

/-- A check of trees, which comes to a result, is a loop with the trees on its stack and a test for
each component.  It succeeds exactly if the listing in pre-order is clean.  Otherwise the result is
the error of a component that offends, given those before it, and those are clean. -/
structure ReportsFirst (test : List Id → Component Id → Except Offence Unit) (trees : Forest Id)
    (result : Except Offence Unit) (clean : List (Component Id) → Prop)
    (offends : List (Component Id) → Component Id → Offence → Prop) : Prop where
  loop : ∀ r, Ends (treeTurn (Rule.look test) fun _ => .ok ()) ([], trees) r ↔ r = result
  ok : result = .ok () ↔ clean ((Forest.preorder 0 trees).map (·.1))
  error : ∀ e, result = .error e ↔ ∃ before c behind,
    (Forest.preorder 0 trees).map (·.1) = before ++ c :: behind ∧ clean before ∧
      offends before c e

theorem reportsFirst_of_inspect {test : List Id → Component Id → Except Offence Unit}
    {trees : Forest Id} {clean : List (Component Id) → Prop}
    {offends : List (Component Id) → Component Id → Offence → Prop}
    (hclean : ∀ nodes, Rule.inspect test [] nodes = .ok () ↔ clean nodes)
    (hoffends : ∀ before c e, test (before.map (·.id)).reverse c = .error e ↔ offends before c e) :
    ReportsFirst test trees (Rule.inspect test [] trees.nodes) clean offends := by
  constructor
  case loop => exact Loop.ends_trees_iff _ _ _ _
  case ok => rw [hclean, Forest.nodes_eq 0]
  case error =>
    intro e
    simp only [Rule.inspect_eq_error_iff, hclean, List.append_nil, hoffends, Forest.nodes_eq 0]

/-- Each of the three checks reports the first offence in pre-order.  The check of the rules does so
whatever identities there are; the check of identities, which has some that are taken besides,
whatever the rules say; and in the check of both a repeated identity comes before a broken rule of
the same component. -/
theorem checks_report_first (c : Component Id) (taken : List Id) (f : Forest Id) :
    ReportsFirst Rule.testRule [c] c.validate
      (fun nodes => ∀ n ∈ nodes, n.Lawful) (fun _ n e => n.Offends e) ∧
    ReportsFirst (Rule.testFree taken) [c] (c.checkUnique taken)
      (fun nodes => (nodes.map (·.id)).Nodup ∧ ∀ n ∈ nodes, n.id ∉ taken)
      (fun before n e => (n.id ∈ taken ∨ n.id ∈ before.map (·.id)) ∧ e = .duplicateId n.id) ∧
    ReportsFirst Rule.testBoth f f.validate
      (fun nodes => (∀ n ∈ nodes, n.Lawful) ∧ (nodes.map (·.id)).Nodup)
      (fun before n e => n.id ∈ before.map (·.id) ∧ e = .duplicateId n.id ∨
        n.id ∉ before.map (·.id) ∧ n.Offends e) := by
  refine ⟨?_, ?_, ?_⟩
  · have hvalidate : c.validate = Rule.inspect Rule.testRule [] (Forest.nodes [c]) :=
      (Rule.inspect_testRule [] _).symm
    rw [hvalidate]
    apply reportsFirst_of_inspect
    · intro nodes
      rw [Rule.inspect_testRule, forM_eq_ok_iff]
      simp only [Rule.checkNode_eq_ok_iff]
    · intro before n e
      exact Rule.checkNode_eq_error_iff
  · have hunique : c.checkUnique taken =
        Rule.inspect (Rule.testFree taken) [] (Forest.nodes [c]) :=
      (Rule.inspect_testFree taken [] _).symm
    rw [hunique]
    apply reportsFirst_of_inspect
    · intro nodes
      rw [Rule.inspect_testFree, Rule.checkIds_iff, List.nil_append, List.forall_mem_map]
    · intro before n e
      simp only [Rule.testFree, List.mem_reverse]
      split
      next hused => rw [error_eq_error_iff, and_iff_right hused]
      next hfree => exact iff_of_false (fun h => by cases h) fun h => hfree h.1
  · have hboth : f.validate = Rule.inspect Rule.testBoth [] f.nodes :=
      (Rule.inspect_testBoth [] _).symm
    rw [hboth]
    apply reportsFirst_of_inspect
    · intro nodes
      rw [Rule.inspect_testBoth, Rule.checkNodes_iff, Rule.checkIds_iff]
      simp only [Rule.checkNode_eq_ok_iff, List.not_mem_nil, not_false_eq_true, implies_true,
        and_true]
    · intro before n e
      simp only [Rule.testBoth, List.mem_reverse]
      split
      next hseen =>
        rw [error_eq_error_iff]
        simp [hseen]
      next hnew => simp [hnew, Rule.checkNode_eq_error_iff]

example : Component.validate (.branch "a" none (.container {})
    [.leaf "b" none (.button { label := " " }), .leaf "c" none (.custom { name := "1st" })]) =
      .error (.invalidProperty "label" "label cannot be empty") := by
  cbv

end PageDesign
