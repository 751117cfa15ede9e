/-
# PageDesign.Proofs.Export.Styling -- every target states the same styling

The styling of a branch is one list of declarations.  Plain markup writes the list into an
attribute, a React component writes it as an object, and a stylesheet as the lines of a rule.  An
object is made from the text of a declaration: the part in front of the first colon becomes a key in
camel case, and the rest, without the semicolon, a value between single quotes.  So a colon, a
semicolon or a quote inside of a value would be taken for an end.

No value has one.  Values are words with single blanks between them (`Words`), and the words have
visible characters that end nothing (`IsWordChar`), whatever the numbers of the design are.  With
the table of properties (`properties`) this is all that is used of a declaration (`Plain`): its text
is taken apart into what it was made from (`ofText_text`), and a style object is read back as the
list it was made from (`readObject_styleObject`).
-/
import PageDesign.Export.Html
import PageDesign.Export.React
import PageDesign.Export.Stylesheet
import PageDesign.Export.Svelte
import PageDesign.Proofs.Number.Characters
import PageDesign.Proofs.Text.Search

namespace PageDesign

open Markup Text

/-! ## Reading declarations -/

/-- A declaration taken apart: the semicolon at its end is left out, the first colon ends the
property, and blanks around property and value are left out. -/
def Declaration.ofText (t : String) : Declaration :=
  match splitAtFirst? [':'] (dropEndWhile (· == ';') t.toList) with
  | some (before, after) =>
    ⟨String.ofList (trimList isBlank before), String.ofList (trimList isBlank after)⟩
  | none => ⟨trim t, ""⟩

namespace React

/-- An entry of a style object, made from the text of a declaration. -/
def entryOf (t : String) : String :=
  camel (Declaration.ofText t).property ++ ": '" ++ (Declaration.ofText t).value ++ "'"

/-- A style object with an entry for each text of a declaration. -/
def objectOf (ts : List String) : String :=
  "\x7b\x7b " ++ ", ".intercalate (ts.map entryOf) ++ " \x7d\x7d"

/-- A key of a style object as a property: a capital is a small letter behind a hyphen. -/
def kebab (key : List Char) : String :=
  String.ofList (key.flatMap fun c => if c.isUpper then ['-', c.toLower] else [c])

/-- The entries between the quotes of a style object.  A key is what has letters in front of a
quote, and its value stands behind that quote. -/
def readEntries : List (List Char) → List Declaration
  | key :: value :: rest =>
    ⟨kebab (key.filter Char.isAlpha), String.ofList value⟩ :: readEntries rest
  | _ => []

/-- The declarations of a style object. -/
def readObject (s : String) : List Declaration := readEntries (splitAtEach '\x27' s.toList)

end React

/-! ## Values -/

namespace Style

/-- The properties in use. -/
def properties : List String :=
  ["display", "flex-direction", "flex-wrap", "align-items", "justify-content",
    "grid-template-columns", "grid-template-rows", "gap", "padding", "border-radius", "box-shadow",
    "border", "animation"]

/-- Characters of the words of a value: visible ones that end neither a text between quotes nor a
property or a declaration. -/
def IsWordChar (c : Char) : Prop :=
  (0x21 ≤ c.toNat ∧ c.toNat ≤ 0x7E) ∧ c ∉ ['"', '\x27', ':', ';']

instance (c : Char) : Decidable (IsWordChar c) := inferInstanceAs (Decidable (_ ∧ _))

/-- Characters of words. -/
def WordChars (cs : List Char) : Prop := ∀ c ∈ cs, IsWordChar c

instance (cs : List Char) : Decidable (WordChars cs) := List.decidableBAll _ cs

/-- A word of a value. -/
def Word (cs : List Char) : Prop := cs ≠ [] ∧ WordChars cs

instance (cs : List Char) : Decidable (Word cs) := inferInstanceAs (Decidable (_ ∧ _))

/-- Words with a blank between each and the next. -/
def Words (cs : List Char) : Prop := ∀ w ∈ splitAtEach ' ' cs, Word w

instance (cs : List Char) : Decidable (Words cs) := List.decidableBAll _ _

theorem IsWordChar.not_isBlank {c : Char} (h : IsWordChar c) : isBlank c = false := by
  obtain ⟨hrange, -⟩ := h
  simp only [isBlank, isWhiteSpace, Bool.or_eq_false_iff, Bool.and_eq_false_iff,
    beq_eq_false_iff_ne, decide_eq_false_iff_not]
  omega

theorem isWordChar_of_isNumeral {c : Char} (h : IsNumeral c) : IsWordChar c := by
  rcases h with hdigit | hmark
  · have hrange := Char.isDigit_iff_toNat.mp hdigit
    have hends : '0'.toNat = 48 ∧ '9'.toNat = 57 := ⟨rfl, rfl⟩
    refine ⟨by omega, fun hmem => ?_⟩
    simp only [List.mem_cons, List.not_mem_nil, or_false] at hmem
    rcases hmem with rfl | rfl | rfl | rfl <;> exact absurd hdigit (by decide)
  · exact (by decide : WordChars ['-', '+', '.', 'e']) c hmark

theorem Word.append {cs ds : List Char} (hcs : WordChars cs) (hds : Word ds) :
    Word (cs ++ ds) :=
  ⟨List.append_ne_nil_of_right_ne_nil cs hds.1, List.forall_mem_append.mpr ⟨hcs, hds.2⟩⟩

theorem Word.words {cs : List Char} (h : Word cs) : Words cs := by
  have hnone : ' ' ∉ cs := fun hmem => absurd (h.2 ' ' hmem) (by decide)
  rw [Words, splitAtEach_of_notMem hnone]
  simpa using h

theorem Words.append {cs ds : List Char} (hcs : Words cs) (hds : Words ds) :
    Words (cs ++ ' ' :: ds) := by
  rw [Words, splitAtEach_append]
  exact List.forall_mem_append.mpr ⟨hcs, hds⟩

theorem Words.char {cs : List Char} (h : Words cs) {c : Char} (hc : c ∈ cs) :
    c = ' ' ∨ IsWordChar c := by
  by_cases hblank : c = ' '
  · exact .inl hblank
  · obtain ⟨w, hw, hcw⟩ := exists_mem_splitAtEach hblank hc
    exact .inr ((h w hw).2 c hcw)

theorem Words.first {cs : List Char} (h : Words cs) :
    ∃ c rest, cs = c :: rest ∧ IsWordChar c := by
  cases cs with
  | nil => exact absurd rfl (h [] (by simp [splitAtEach])).1
  | cons c rest =>
      refine ⟨c, rest, rfl, (h.char List.mem_cons_self).resolve_left ?_⟩
      rintro rfl
      have hnil : [] ∈ splitAtEach ' ' ([] ++ ' ' :: rest) := by
        rw [splitAtEach_append]
        exact List.mem_append_left _ (List.mem_singleton.mpr rfl)
      exact absurd rfl (h [] hnil).1

theorem Words.last {cs : List Char} (h : Words cs) :
    ∃ front c, cs = front ++ [c] ∧ IsWordChar c := by
  obtain rfl | ⟨front, c, rfl⟩ := cs.eq_nil_or_concat'
  · exact absurd rfl (h [] (by simp [splitAtEach])).1
  · refine ⟨front, c, rfl, (h.char (by simp)).resolve_left ?_⟩
    rintro rfl
    exact absurd rfl (h [] (by simp [splitAtEach_append, splitAtEach])).1

/-! ## The declarations in use -/

/-- A property from the table with words as its value. -/
structure Plain (d : Declaration) : Prop where
  property : d.property ∈ properties
  value : Words d.value.toList

instance (d : Declaration) : Decidable (Plain d) :=
  decidable_of_iff (d.property ∈ properties ∧ Words d.value.toList)
    ⟨fun h => ⟨h.1, h.2⟩, fun h => ⟨h.property, h.value⟩⟩

theorem wordChars_number (n : Int) : WordChars (number n).toList :=
  fun c hc => isWordChar_of_isNumeral (Notation.areNumerals_integer n c hc)

theorem wordChars_brief (x : Binary64) : WordChars (Notation.brief x).toList := by
  rcases Notation.areNumerals_brief x with h | h
  · exact fun c hc => isWordChar_of_isNumeral (h c hc)
  · exact (by decide : ∀ t ∈ ["nan", "inf", "-inf"], WordChars t.toList) _ h

theorem word_pixels (n : Int) : Word (pixels n).toList := by
  rw [pixels, String.toList_append]
  exact .append (wordChars_number n) (by decide)

theorem words_spacing (s : Spacing) : Words (spacing s).toList := by
  have happend := fun n {cs : List Char} (h : Words cs) => h.append (word_pixels n).words
  have hfront := happend s.bottom (happend s.right (word_pixels s.top).words)
  simpa [spacing] using happend s.left hfront

theorem words_repeat (n : Int) {size : List Char} (h : Words size) :
    Words ("repeat(".toList ++ (number n).toList ++ ',' :: ' ' :: size) := by
  have hcount : Word ("repeat(".toList ++ (number n).toList ++ [',']) := by
    rw [List.append_assoc]
    exact .append (by decide) (.append (wordChars_number n) (by decide))
  simpa using hcount.words.append h

theorem words_shorthand {a : Animation} (h : a.movement ≠ .none) : Words a.shorthand.toList := by
  have hseconds : ∀ x, Words ((Notation.brief x).toList ++ ['s']) :=
    fun x => (Word.append (wordChars_brief x) (by decide)).words
  have hkeyframes : Words a.movement.keyframes.toList := by
    generalize a.movement = m at h
    cases m <;> first | decide | exact absurd rfl h
  have hcount : Words (if a.infinite then "infinite" else "1").toList := by
    cases a.infinite <;> decide
  have hfront := (hkeyframes.append (hseconds a.duration)).append
    (by decide : Words "ease-in-out".toList)
  have hwhole := ((hfront.append (hseconds a.delay)).append hcount).append
    (by decide : Words "both".toList)
  simpa [Animation.shorthand, h] using hwhole

/-- The words that stand in what plays an animation, with the blanks and the unit between them. -/
def shorthandWords : List String :=
  (Choice.all : List AnimationType).map AnimationType.keyframes ++
    [" ", "s ease-in-out ", "s ", "infinite", "1", " both", "nan", "inf", "-inf"]

/-- What plays an animation has no characters but those of numbers and of some words. -/
theorem notMem_shorthand (a : Animation) {c : Char} (hnumeral : ¬ IsNumeral c)
    (hwords : ∀ t ∈ shorthandWords, c ∉ t.toList) : c ∉ a.shorthand.toList := by
  have hkeyframes : c ∉ a.movement.keyframes.toList := by
    refine hwords _ (List.mem_append_left _ (List.mem_map_of_mem ?_))
    cases a.movement <;> decide
  have hbrief (x : Binary64) : c ∉ (Notation.brief x).toList := by
    intro hmem
    rcases Notation.areNumerals_brief x with h | h
    · exact hnumeral (h c hmem)
    · refine hwords _ (List.mem_append_right _ ?_) hmem
      exact (by decide : ["nan", "inf", "-inf"] ⊆ _) h
  have hword {t : String} (ht : t ∈ shorthandWords) : c ∉ t.toList := hwords t ht
  rw [Animation.shorthand]
  split
  next => simp
  next =>
    have hcount : c ∉ (if a.infinite then "infinite" else "1").toList := by
      split <;> exact hword (by decide)
    simp only [String.toList_append, List.mem_append, not_or]
    exact ⟨⟨⟨⟨⟨⟨⟨hkeyframes, hword (by decide)⟩, hbrief _⟩, hword (by decide)⟩, hbrief _⟩,
      hword (by decide)⟩, hcount⟩, hword (by decide)⟩

theorem plain_words {property value : String} (hproperty : property ∈ properties)
    (hvalue : Words value.toList) : Plain ⟨property, value⟩ := ⟨hproperty, hvalue⟩

theorem plain_layout (l : Layout) : ∀ d ∈ layout l, Plain d := by
  cases l with
  | flex direction wrap align' justify' =>
      have hdirection : Words (Choice.name direction).toList := by cases direction <;> decide
      have halign : Words (align align').toList := by cases align' <;> decide
      have hjustify : Words (justify justify').toList := by cases justify' <;> decide
      have hwrap : ∀ d ∈ if wrap then [(⟨"flex-wrap", "wrap"⟩ : Declaration)] else [], Plain d := by
        cases wrap <;> decide
      simp only [layout, List.forall_mem_append, List.forall_mem_cons]
      exact ⟨⟨⟨by decide, plain_words (by decide) hdirection, by simp⟩, hwrap⟩,
        plain_words (by decide) halign, plain_words (by decide) hjustify, by simp⟩
  | grid columns rows =>
      have hcolumns : Words ("repeat(" ++ number columns ++ ", 1fr)").toList := by
        simpa using words_repeat columns (by decide : Words "1fr)".toList)
      have hrows : Words ("repeat(" ++ number rows ++ ", auto)").toList := by
        simpa using words_repeat rows (by decide : Words "auto)".toList)
      simp only [layout, List.forall_mem_cons]
      exact ⟨by decide, plain_words (by decide) hcolumns, plain_words (by decide) hrows, by simp⟩
  | stack => decide

theorem plain_animation (a : Option Animation) : ∀ d ∈ animation a, Plain d := by
  cases a with
  | none => simp [animation]
  | some a =>
      by_cases h : a.movement = .none
      · simp [animation, h]
      · have hplain : Plain ⟨"animation", a.shorthand⟩ :=
          plain_words (by decide) (words_shorthand h)
        simpa [animation, h] using hplain

theorem plain_frame (f : Frame) : ∀ d ∈ frame f, Plain d := by
  cases f with
  | container c =>
      have hgap : Plain (gap c) := plain_words (by decide) (word_pixels c.gap).words
      have hpadding : Plain (padding c) := plain_words (by decide) (words_spacing c.padding)
      exact List.forall_mem_append.mpr ⟨plain_layout c.layout, by simp [hgap, hpadding]⟩
  | card c =>
      have hshadow : ∀ d ∈ if c.shadow then [shadow] else [], Plain d := by
        cases c.shadow <;> decide
      have hborder : ∀ d ∈ if c.border then [border] else [], Plain d := by
        cases c.border <;> decide
      simp only [frame, card, cardBox, List.forall_mem_append, List.forall_mem_cons]
      exact ⟨⟨⟨plain_words (by decide) (word_pixels c.padding).words,
        plain_words (by decide) (word_pixels c.borderRadius).words, by simp⟩, hshadow⟩, hborder⟩

/-- The styling of a branch: how its items stand and what it looks like, then what plays its
animation. -/
def branch (a : Option Animation) (f : Frame) : List Declaration := frame f ++ animation a

/-- Whatever its numbers are, a branch is styled by plain declarations. -/
theorem plain_branch (a : Option Animation) (f : Frame) : ∀ d ∈ branch a f, Plain d :=
  List.forall_mem_append.mpr ⟨plain_frame f, plain_animation a⟩

theorem branch_ne_nil (a : Option Animation) (f : Frame) : branch a f ≠ [] := by
  cases f with
  | container c => simp [branch, frame, container]
  | card c => simp [branch, frame, card, cardBox]

/-! ## Taking declarations apart -/

theorem properties_trimmed :
    ∀ p ∈ properties, ':' ∉ p.toList ∧ trimList isBlank p.toList = p.toList := by decide

theorem properties_words : ∀ p ∈ properties, WordChars p.toList := by decide

theorem properties_camel : ∀ p ∈ properties, (React.camel p).toList.all Char.isAlpha = true ∧
    React.kebab (React.camel p).toList = p := by decide

theorem Words.trim {cs : List Char} (h : Words cs) : trimList isBlank (' ' :: cs) = cs := by
  obtain ⟨c, rest, heq, hc⟩ := h.first
  obtain ⟨front, d, heq', hd⟩ := h.last
  have hdrop : (' ' :: cs).dropWhile isBlank = front ++ [d] := by
    rw [List.dropWhile_cons_of_pos (by decide), ← heq', heq,
      List.dropWhile_cons_of_neg (by simp [hc.not_isBlank])]
  rw [trimList, hdrop, dropEndWhile_concat hd.not_isBlank, heq']

/-- The text of a plain declaration is taken apart into what it was made from. -/
theorem ofText_text {d : Declaration} (h : Plain d) : Declaration.ofText d.text = d := by
  obtain ⟨hcolon, htrim⟩ := properties_trimmed d.property h.property
  obtain ⟨front, c, heq, hc⟩ := h.value.last
  have hlast : (c == ';') = false := by
    rw [beq_eq_false_iff_ne]
    rintro rfl
    exact absurd hc (by decide)
  have htext : dropEndWhile (· == ';') d.text.toList =
      d.property.toList ++ ([':'] ++ ' ' :: d.value.toList) := by
    have hparts : d.text.toList = (d.property.toList ++ ':' :: ' ' :: front ++ [c]) ++ [';'] := by
      simp [Declaration.text, heq]
    rw [hparts, dropEndWhile_append (by simp), dropEndWhile_concat (p := (· == ';')) hlast, heq]
    simp
  rw [Declaration.ofText, htext, splitAtFirst?_of_notMem hcolon [] (' ' :: d.value.toList)]
  dsimp only
  rw [htrim, h.value.trim, String.ofList_toList, String.ofList_toList]

/-! ## Style objects -/

theorem toList_entry {d : Declaration} (h : Plain d) :
    (React.entry d).toList =
      (React.camel d.property).toList ++ (": '".toList ++ d.value.toList ++ ['\x27']) := by
  have hvalue : d.value.toList.flatMap React.valueChar = d.value.toList := by
    have hchars : ∀ c ∈ d.value.toList, React.valueChar c = [c] := by
      intro c hc
      apply if_neg
      rintro rfl
      exact absurd (h.value.char hc) (by decide)
    rw [List.flatMap_congr hchars, List.flatMap_singleton']
  simp [React.entry, hvalue]

theorem entry_eq {d : Declaration} (h : Plain d) : React.entry d = React.entryOf d.text := by
  apply String.toList_injective
  rw [toList_entry h, React.entryOf, ofText_text h]
  simp

theorem styleObject_eq {ds : List Declaration} (h : ∀ d ∈ ds, Plain d) :
    React.styleObject ds = React.objectOf (ds.map Declaration.text) := by
  have hentries : ds.map React.entry = (ds.map Declaration.text).map React.entryOf := by
    rw [List.map_map]
    exact List.map_congr_left fun d hd => entry_eq (h d hd)
  apply String.toList_injective
  simp [React.styleObject, React.objectOf, React.braced, hentries]

/-- Characters in front of the first quote that do not belong to the key. -/
def Filler (cs : List Char) : Prop := ∀ c ∈ cs, c.isAlpha = false ∧ c ≠ '\x27'

instance (cs : List Char) : Decidable (Filler cs) := List.decidableBAll _ cs

theorem Filler.notMem {cs : List Char} (h : Filler cs) : '\x27' ∉ cs := fun hmem =>
  (h _ hmem).2 rfl

/-- An entry is read as its declaration, whatever filler stands in front of it. -/
theorem readEntries_entry {before : List Char} (hbefore : Filler before) {d : Declaration}
    (h : Plain d) (rest : List Char) :
    React.readEntries (splitAtEach '\x27' (before ++ (React.entry d).toList ++ rest)) =
      d :: React.readEntries (splitAtEach '\x27' rest) := by
  obtain ⟨hall, hkebab⟩ := properties_camel d.property h.property
  have hkey := List.all_eq_true.mp hall
  have hname : '\x27' ∉ (React.camel d.property).toList := fun hmem =>
    absurd (hkey _ hmem) (by decide)
  have hfront : '\x27' ∉ before ++ (React.camel d.property).toList ++ [':', ' '] :=
    List.not_mem_append (List.not_mem_append hbefore.notMem hname) (by decide)
  have hvalue : '\x27' ∉ d.value.toList := fun hmem => absurd (h.value.char hmem) (by decide)
  have hletters : (before ++ (React.camel d.property).toList ++ [':', ' ']).filter Char.isAlpha =
      (React.camel d.property).toList := by
    have hnone : before.filter Char.isAlpha = [] :=
      List.filter_eq_nil_iff.mpr fun c hc => by simp [(hbefore c hc).1]
    rw [List.filter_append, List.filter_append, hnone, List.filter_eq_self.mpr hkey]
    exact List.append_nil _
  have hparts : before ++ (React.entry d).toList ++ rest =
      before ++ (React.camel d.property).toList ++ [':', ' '] ++
        '\x27' :: (d.value.toList ++ '\x27' :: rest) := by
    rw [toList_entry h]
    simp
  rw [hparts, splitAtEach_append, splitAtEach_append, splitAtEach_of_notMem hfront,
    splitAtEach_of_notMem hvalue, List.singleton_append, List.singleton_append,
    React.readEntries, hletters, hkebab, String.ofList_toList]

/-- The entries of a list are read one after the other, each behind a comma or the brace in front
of the first. -/
theorem readEntries_entries {ds : List Declaration} (h : ∀ d ∈ ds, Plain d) {before : List Char}
    (hbefore : Filler before) :
    React.readEntries (splitAtEach '\x27' (before ++
      [',', ' '].intercalate (ds.map fun d => (React.entry d).toList) ++ " \x7d\x7d".toList)) =
        ds := by
  induction ds generalizing before with
  | nil =>
      have hquote : '\x27' ∉ before ++ [] ++ " \x7d\x7d".toList :=
        List.not_mem_append (List.not_mem_append hbefore.notMem List.not_mem_nil) (by decide)
      rw [List.map_nil, List.intercalate_nil, splitAtEach_of_notMem hquote]
      rfl
  | cons d ds ih =>
      obtain ⟨hd, hds⟩ := List.forall_mem_cons.mp h
      cases ds with
      | nil =>
          rw [List.map_singleton, List.intercalate_singleton, readEntries_entry hbefore hd]
          rfl
      | cons e ds =>
          have hrest := ih hds (by decide : Filler [',', ' '])
          have hsome : (e :: ds).map (fun d => (React.entry d).toList) ≠ [] := List.cons_ne_nil _ _
          rw [List.map_cons, List.intercalate_cons_of_ne_nil hsome, List.append_assoc,
            List.append_assoc (React.entry d).toList, List.append_assoc, ← List.append_assoc before,
            readEntries_entry hbefore hd, hrest]

/-- A style object is read back as the declarations that it was made from. -/
theorem readObject_styleObject {ds : List Declaration} (h : ∀ d ∈ ds, Plain d) :
    React.readObject (React.styleObject ds) = ds := by
  have hobject : (React.styleObject ds).toList = "\x7b\x7b ".toList ++
      [',', ' '].intercalate (ds.map fun d => (React.entry d).toList) ++ " \x7d\x7d".toList := by
    simp [React.styleObject, React.braced, Function.comp_def]
  rw [React.readObject, hobject]
  exact readEntries_entries h (by decide)

/-! ## Targets -/

/-- Declarations in an attribute, one behind the other. -/
def inlineStyle (ds : List Declaration) : Attribute :=
  .quoted "style" (" ".intercalate (ds.map Declaration.text))

/-- Declarations in an attribute, as an object. -/
def objectStyle (ds : List Declaration) : Attribute :=
  .bare "style" (React.objectOf (ds.map Declaration.text))

theorem styled_branch (a : Option Animation) (f : Frame) :
    Markup.styled (branch a f) = [inlineStyle (branch a f)] :=
  if_neg (by simp [branch_ne_nil])

theorem react_styled_branch (a : Option Animation) (f : Frame) :
    React.styled (branch a f) = [objectStyle (branch a f)] := by
  rw [React.styled, if_neg (by simp [branch_ne_nil]), styleObject_eq (plain_branch a f)]
  rfl

/-- Without its animation, the styling of a container is what its rule has. -/
theorem filter_branch (a : Option Animation) (c : Container) :
    ((branch a (.container c)).filter fun d => d.property ≠ "animation") = container c := by
  have hkept : ∀ d ∈ container c, decide (d.property ≠ "animation") = true := by
    rw [container]
    cases c.layout with
    | flex direction wrap align' justify' => cases wrap <;> simp [layout, gap, padding]
    | grid columns rows => simp [layout, gap, padding]
    | stack => simp [layout, gap, padding]
  have hleft : ∀ d ∈ animation a, ¬ decide (d.property ≠ "animation") = true := by
    cases a with
    | none => simp [animation]
    | some a =>
        rw [animation]
        split <;> simp
  rw [branch, List.filter_append, frame, List.filter_eq_self.mpr hkept,
    List.filter_eq_nil_iff.mpr hleft, List.append_nil]

theorem count_text {d : Declaration} (h : Plain d) {c : Char} (hword : ¬ IsWordChar c)
    (hblank : c ≠ ' ') : d.text.toList.count c = [':', ';'].count c := by
  have hproperty : c ∉ d.property.toList := fun hmem =>
    hword (properties_words d.property h.property c hmem)
  have hvalue : c ∉ d.value.toList := fun hmem => hword ((h.value.char hmem).resolve_left hblank)
  simp [Declaration.text, List.count_append, List.count_cons, List.count_eq_zero.mpr hproperty,
    List.count_eq_zero.mpr hvalue, hblank.symm]

/-- Every target states the styling of a branch in full and in the same order: plain markup, Vue and
Svelte as one text, React as an object with an entry for each declaration, made from its text, and a
stylesheet, for a container, as a rule without the animation.  The object tells the declarations,
and none of them has a quote or a second semicolon. -/
theorem styling_agrees (a : Option Animation) (f : Frame) :
    Html.enter a f = [flat (tag "div" (Html.on "click" f.onClick ++ [inlineStyle (branch a f)]))] ∧
    Vue.enter a f = [flat (tag "div"
      (Vue.frameClass f ++ Vue.on "click" f.onClick ++ [inlineStyle (branch a f)]))] ∧
    Svelte.enter a f = [flat (tag "div"
      (Vue.frameClass f ++ Svelte.on "click" f.onClick ++ [inlineStyle (branch a f)]))] ∧
    React.enter a f = [flat (tag "div"
      (React.frameClass f ++ React.on "Click" f.onClick ++ [objectStyle (branch a f)]))] ∧
    React.readObject (React.objectOf ((branch a f).map Declaration.text)) = branch a f ∧
    (∀ c id children, Stylesheet.ruleOf (.branch id a (.container c) children) =
      ["." ++ Stylesheet.containerClass id ++ " \x7b"] ++
        ((branch a (.container c)).filter fun d => d.property ≠ "animation").map
          (fun d => "  " ++ d.text) ++
        ["\x7d", ""]) ∧
    ∀ d ∈ branch a f, '"' ∉ d.text.toList ∧ '\x27' ∉ d.text.toList ∧
      d.text.toList.count ';' = 1 := by
  have hinline := styled_branch a f
  have hobject := react_styled_branch a f
  have hread := readObject_styleObject (plain_branch a f)
  rw [styleObject_eq (plain_branch a f)] at hread
  refine ⟨?_, ?_, ?_, ?_, hread, ?_, ?_⟩
  · rw [Html.enter, ← branch, hinline]
  · rw [Vue.enter, ← branch, hinline]
  · rw [Svelte.enter, ← branch, hinline]
  · rw [React.enter, ← branch, hobject]
  · intro c id children
    rw [filter_branch]
    rfl
  · intro d hd
    have hcount := fun c => count_text (plain_branch a f d hd) (c := c)
    exact ⟨List.count_eq_zero.mp (hcount '"' (by decide) (by decide)),
      List.count_eq_zero.mp (hcount '\x27' (by decide) (by decide)),
      hcount ';' (by decide) (by decide)⟩

/-- A grid with an animation that takes forever. -/
theorem styling_agrees_sample :
    let a : Option Animation := some { movement := .fadeIn, duration := .infinite false }
    let f : Frame := .container { layout := .grid 2 1, onClick := some "go" }
    Html.enter a f = [flat ("<div onclick=\"go()\" style=\"display: grid; " ++
        "grid-template-columns: repeat(2, 1fr); grid-template-rows: repeat(1, auto); gap: 8px; " ++
        "padding: 0px 0px 0px 0px; animation: fadeIn infs ease-in-out 0s 1 both;\">")] ∧
      React.enter a f = [flat ("<div onClick=\x7bgo\x7d style=\x7b\x7b display: 'grid', " ++
        "gridTemplateColumns: 'repeat(2, 1fr)', gridTemplateRows: 'repeat(1, auto)', " ++
        "gap: '8px', padding: '0px 0px 0px 0px', " ++
        "animation: 'fadeIn infs ease-in-out 0s 1 both' \x7d\x7d>")] := by
  intro a f
  obtain ⟨hhtml, -, -, hreact, -⟩ := styling_agrees a f
  exact ⟨hhtml.trans (by decide +kernel), hreact.trans (by decide +kernel)⟩

end Style

end PageDesign
