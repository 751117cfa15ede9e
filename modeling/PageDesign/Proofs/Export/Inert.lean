/-
# PageDesign.Proofs.Export.Inert -- texts in a React component open nothing

The label of a button, the content of a text, and the placeholder and the options of a drop-down list
stand between tags.  The lines of texts, placeholders and options are read as a tag, the text and a
tag, whatever the text is; the handler of a button is code of the user, and where it leaves its
braces the line is still read from the label on.

A line displays one text (`Displays.unique`), and a page tells the texts in every place.  Around
the place of a component nothing on the page depends on it (`exists_frame`), so the lines of two
leaves can be compared.  Those of a drop-down list are taken apart by their tags: the tag of an
option holds the option (`optionTag_injective`) and is none of the tags that every list has
(`optionTag_notMem`).
-/
import PageDesign.Proofs.Export.Jsx
import PageDesign.Proofs.Export.Markup
import PageDesign.Proofs.Forest.Splice

namespace PageDesign.Jsx

open Escape Markup

/-! ## Lines -/

/-- A line displays a text: it is a tag, the characters of the text, and a tag. -/
def Displays (line : Line) (s : String) : Prop :=
  ∃ first last, pieces line.text.toList =
    some (.tag first :: (s.toList.map Piece.ofChar ++ [.tag last]))

/-- A line displays one text. -/
theorem Displays.unique {line : Line} {s t : String} (hs : Displays line s) (ht : Displays line t) :
    s = t := by
  obtain ⟨first, last, hs⟩ := hs
  obtain ⟨first', last', ht⟩ := ht
  rw [hs, Option.some.injEq, List.cons.injEq] at ht
  have hchars := (List.append_inj' ht.2 rfl).1
  exact String.toList_injective (List.map_injective_iff.mpr Piece.ofChar_injective hchars)

theorem displays_element {name : String} {as : List Attribute} (hname : IsPlain name.toList)
    (has : ∀ a ∈ as, Fits a) (n : Nat) (s : String) :
    Displays ⟨n, element name as (jsxText s)⟩ s :=
  ⟨_, _, (readAs_element hname has s).pieces⟩

end PageDesign.Jsx

namespace PageDesign.React

open Escape Markup Jsx

/-- The attributes of a button. -/
def buttonAttributes (a : Option Animation) (b : Button) : List Attribute :=
  [className (Style.buttonClass b), state "disabled" b.disabled] ++ on "Click" b.onClick ++
    styled (Style.animation a)

/-- The first line of a drop-down list. -/
def selectLine (a : Option Animation) (s : SelectField) : Line :=
  flat (tag "select" ([.quoted "defaultValue" "", state "disabled" s.disabled] ++
    on "Change" s.onChange ++ styled (Style.animation a)))

/-- The line for the placeholder of a drop-down list. -/
def hintLine (s : String) : Line :=
  nested (element "option" [.quoted "value" "", .flag "disabled"] (jsxText s))

/-- The line for an option of a drop-down list. -/
def optionLine (s : String) : Line :=
  nested (element "option" [.escaped "value" s] (jsxText s))

theorem leaf_button (a : Option Animation) (b : Button) : leaf a (.button b) =
    [flat (tag "button" (buttonAttributes a b) ++ jsxText b.label ++ endTag "button")] := rfl

theorem leaf_select (a : Option Animation) (s : SelectField) : leaf a (.select s) =
    selectLine a s :: (if s.placeholder.isEmpty then [] else [hintLine s.placeholder]) ++
      s.optionList.map optionLine ++ [flat (endTag "select")] := rfl

theorem displays_button (a : Option Animation) {b : Button} (h : ∀ code ∈ b.onClick, Closed code) :
    Displays (flat (element "button" (buttonAttributes a b) (jsxText b.label))) b.label := by
  refine displays_element (by decide) ?_ 0 b.label
  have hclass : '"' ∉ (Style.buttonClass b).toList := by
    rw [Style.buttonClass]
    cases b.variant <;> cases b.size <;> decide
  simp only [buttonAttributes, List.forall_mem_append, List.forall_mem_cons]
  exact ⟨⟨⟨fits_className hclass, fits_state (by decide) _, by simp⟩,
    fits_on (by decide) h⟩, fits_styled a⟩

theorem displays_text (a : Option Animation) (t : TextBlock) :
    ∃ line, leaf a (.text t) = [line] ∧ Displays line t.content := by
  refine ⟨_, rfl, displays_element ?_ ?_ 0 t.content⟩
  · cases t.tag <;> decide
  · have hclass : '"' ∉ (Style.textClass t).toList := by
      rw [Style.textClass]
      cases t.style <;> decide
    exact List.forall_mem_cons.mpr ⟨fits_className hclass, fits_styled a⟩

theorem fits_hint : ∀ a ∈ [Attribute.quoted "value" "", .flag "disabled"], Fits a := by
  simp only [List.forall_mem_cons]
  exact ⟨fits_quoted (by decide) (by decide), fits_flag (by decide), by simp⟩

theorem fits_option (s : String) : ∀ a ∈ [Attribute.escaped "value" s], Fits a := by
  simp only [List.forall_mem_cons]
  exact ⟨fits_escaped (by decide) s, by simp⟩

theorem displays_hint (s : String) : Displays (hintLine s) s :=
  displays_element (by decide) fits_hint 1 s

theorem displays_option (s : String) : Displays (optionLine s) s :=
  displays_element (by decide) (fits_option s) 1 s

end PageDesign.React

namespace PageDesign

open Escape Markup Jsx

variable {ι : Type}

/-! ## Pages -/

namespace Dialect

theorem block_append (d : Dialect) (width depth : Nat) (ls ms : List Line) :
    d.block width depth (ls ++ ms) = d.block width depth ls ++ d.block width depth ms := by
  rw [block, List.map_append, String.join_append]
  rfl

theorem block_singleton (d : Dialect) (width depth : Nat) (l : Line) :
    d.block width depth [l] = d.padding width depth ++ l.render width := by
  simp [block]

/-- Around a component nothing on the page depends on it. -/
theorem exists_frame (d : Dialect) (width depth : Nat) {f : Forest ι} {a : Address}
    {c : Component ι} (h : f.Holds a c) : ∃ n before behind, ∀ e,
      d.forestText width depth (f.exchangeAt a [e]) = before ++ d.treeText width n e ++ behind := by
  obtain ⟨owner, index⟩ := a
  obtain ⟨s, hs, hi⟩ := h
  change Forest.Leads owner f s at hs
  change s[index]? = some c at hi
  induction hs generalizing depth with
  | here f =>
      refine ⟨depth, d.forestText width depth (f.take index),
        d.forestText width depth (f.drop (index + 1)), fun e => ?_⟩
      rw [Forest.exchangeAt, Forest.editSequence, forestText_append, forestText_append, forestText,
        forestText, String.append_empty]
  | @down i path f s b hb hbranch _ ih =>
      -- the branch on the way has lines of its own around those of its children
      obtain ⟨n, before, behind, hframe⟩ := ih (depth + 1) hi
      obtain ⟨j, an, fr, ds, rfl⟩ : ∃ j an fr ds, b = .branch j an fr ds := by
        cases b with
        | leaf j an l => cases hbranch
        | branch j an fr ds => exact ⟨j, an, fr, ds, rfl⟩
      refine ⟨n, d.forestText width depth (f.take i) ++ (d.block width depth (d.enter an fr) ++ before),
        behind ++ (d.block width depth (d.exit fr) ++ d.forestText width depth (f.drop (i + 1))),
        fun e => ?_⟩
      have hbelow : d.forestText width (depth + 1) (Forest.editSequence _ path ds) = _ := hframe e
      rw [Forest.exchangeAt, Forest.editSequence, Forest.modify_eq_take_cons_drop hb,
        forestText_append, forestText, Component.withChildren, treeText, Component.children, hbelow]
      simp only [String.append_assoc]

/-- The block of one line tells the text on it, if it is known what is around the text. -/
theorem eq_of_block_eq (d : Dialect) {width depth n : Nat} {before behind s t : String}
    (h : d.block width depth [⟨n, before ++ jsxText s ++ behind⟩] =
      d.block width depth [⟨n, before ++ jsxText t ++ behind⟩]) : s = t := by
  apply jsxText_injective
  apply String.toList_injective
  have hlists := congrArg String.toList h
  simpa [block_singleton, Line.render] using hlists

end Dialect

/-! ## Drop-down lists -/

namespace React

/-- A stretch that begins and ends between tags has some tags. -/
def Tagged (cs : List Char) (ts : List (List Char)) : Prop :=
  ∃ ps, ReadAs cs ps ∧ ps.filterMap Piece.inside? = ts

theorem Tagged.append {cs ds : List Char} {ts us : List (List Char)} (h : Tagged cs ts)
    (h' : Tagged ds us) : Tagged (cs ++ ds) (ts ++ us) := by
  obtain ⟨ps, hps, rfl⟩ := h
  obtain ⟨qs, hqs, rfl⟩ := h'
  exact ⟨ps ++ qs, hps.append hqs, List.filterMap_append⟩

theorem Tagged.unique {cs : List Char} {ts us : List (List Char)} (h : Tagged cs ts)
    (h' : Tagged cs us) : ts = us := by
  obtain ⟨ps, hps, rfl⟩ := h
  obtain ⟨qs, hqs, rfl⟩ := h'
  rw [Option.some.inj (hps.pieces.symm.trans hqs.pieces)]

theorem filterMap_inside_text (cs : List Char) :
    (cs.map Piece.ofChar).filterMap Piece.inside? = [] := by
  rw [List.filterMap_eq_nil_iff]
  intro p hp
  obtain ⟨c, -, rfl⟩ := List.mem_map.mp hp
  unfold Piece.ofChar
  split <;> rfl

theorem tagged_text (s : String) : Tagged (jsxText s).toList [] :=
  ⟨_, readAs_jsxText s, filterMap_inside_text s.toList⟩

/-- The tags of a line are the tags of its text, wherever the line stands. -/
theorem tagged_block {width depth : Nat} {line : Line} {ts : List (List Char)}
    (h : Tagged line.text.toList ts) : Tagged (dialect.block width depth [line]).toList ts := by
  have hblanks (n : Nat) : Tagged (spaces n).toList [] := by
    have hplain : jsxText (spaces n) = spaces n := by
      rw [jsxText, spaces, String.toList_ofList, List.flatMap_replicate]
      simp [jsxChar, isJsxSpecial]
    rw [← hplain]
    exact tagged_text _
  have hbreak : Tagged ['\n'] [] := tagged_text "\n"
  have hmargin := (hblanks (width * (dialect.base + depth))).append (hblanks (width * line.level))
  have hwhole := (hmargin.append h).append hbreak
  simpa [Dialect.block_singleton, Dialect.padding, Line.render] using hwhole

/-- The tag that begins the line of a placeholder. -/
def hintTag : List Char := (inside "option" [.quoted "value" "", .flag "disabled"]).toList

/-- The tag that begins the line of an option. -/
def optionTag (s : String) : List Char := (inside "option" [.escaped "value" s]).toList

/-- The tags on the lines of some options. -/
def optionTags (os : List String) : List (List Char) :=
  os.flatMap fun o => [optionTag o, "/option".toList]

theorem optionTag_eq (s : String) :
    optionTag s = "option value=\"".toList ++ (attr s).toList ++ ['"'] := by
  simp [optionTag, toList_inside, written, Attribute.text]

theorem optionTag_injective : Function.Injective optionTag := by
  intro s t h
  rw [optionTag_eq, optionTag_eq, List.append_left_inj, List.append_right_inj] at h
  apply String.toList_injective
  rw [← readAttr_attr, h, readAttr_attr]

/-- The tags of a drop-down list that are the same whatever its texts are. -/
def fixedTags : List (List Char) := [hintTag, "/option".toList, "/select".toList]

theorem optionTag_notMem (s : String) : optionTag s ∉ fixedTags := by
  intro h
  have hquote : (optionTag s).getLast? = some '"' := by rw [optionTag_eq, List.getLast?_concat]
  have hnone : ∀ t ∈ fixedTags, t.getLast? ≠ some '"' := by decide
  exact hnone _ h hquote

theorem tagged_element {name : String} {as : List Attribute} (hname : IsPlain name.toList)
    (has : ∀ a ∈ as, Fits a) (s : String) :
    Tagged (element name as (jsxText s)).toList [(inside name as).toList, '/' :: name.toList] := by
  refine ⟨_, readAs_element hname has s, ?_⟩
  rw [List.filterMap_cons, List.filterMap_append, filterMap_inside_text]
  rfl

theorem tagged_hint (width depth : Nat) (s : String) :
    Tagged (dialect.block width depth [hintLine s]).toList [hintTag, "/option".toList] :=
  tagged_block (tagged_element (by decide) fits_hint s)

theorem tagged_options (width depth : Nat) (os : List String) :
    Tagged (dialect.block width depth (os.map optionLine)).toList (optionTags os) := by
  induction os with
  | nil => exact ⟨[], readAs_nil, rfl⟩
  | cons o os ih =>
      have hfirst : Tagged (dialect.block width depth [optionLine o]).toList
          [optionTag o, "/option".toList] :=
        tagged_block (tagged_element (by decide) (fits_option o) o)
      rw [List.map_cons, ← List.singleton_append, Dialect.block_append, String.toList_append]
      exact hfirst.append ih

/-- The tags on the lines of a drop-down list behind the first one. -/
def listTags (placeholder : String) (os : List String) : List (List Char) :=
  (if placeholder.isEmpty then [] else [hintTag, "/option".toList]) ++
    (optionTags os ++ ["/select".toList])

theorem filter_listTags (placeholder : String) (os : List String) :
    (listTags placeholder os).filter (· ∉ fixedTags) = os.map optionTag := by
  have hoptions : (optionTags os).filter (· ∉ fixedTags) = os.map optionTag := by
    induction os with
    | nil => rfl
    | cons o os ih =>
        have hfirst : [optionTag o, "/option".toList].filter (· ∉ fixedTags) = [optionTag o] := by
          rw [List.filter_cons_of_pos (by simpa using optionTag_notMem o)]
          rfl
        rw [optionTags, List.flatMap_cons, List.filter_append, hfirst]
        exact congrArg _ ih
  have hhint : (if placeholder.isEmpty then [] else [hintTag, "/option".toList]).filter
      (· ∉ fixedTags) = [] := by
    split <;> rfl
  rw [listTags, List.filter_append, List.filter_append, hhint, hoptions]
  exact List.append_nil _

theorem hintTag_mem_listTags (placeholder : String) (os : List String) :
    hintTag ∈ listTags placeholder os ↔ placeholder.isEmpty = false := by
  have hoptions : hintTag ∉ optionTags os := by
    intro h
    obtain ⟨o, -, ho⟩ := List.mem_flatMap.mp h
    rw [List.mem_cons, List.mem_singleton] at ho
    rcases ho with ho | ho
    · exact optionTag_notMem o (ho ▸ List.mem_cons_self)
    · exact absurd ho (by decide)
  have hrest : hintTag ∉ optionTags os ++ ["/select".toList] := by
    rw [List.mem_append, not_or]
    exact ⟨hoptions, by decide⟩
  rw [listTags, List.mem_append, or_iff_left hrest]
  cases placeholder.isEmpty <;> simp

/-- The tags tell the options, and whether there is a placeholder. -/
theorem listTags_inj {p q : String} {os qs : List String} (h : listTags p os = listTags q qs) :
    p.isEmpty = q.isEmpty ∧ os = qs := by
  constructor
  · have hiff : p.isEmpty = false ↔ q.isEmpty = false := by
      rw [← hintTag_mem_listTags p os, h, hintTag_mem_listTags]
    revert hiff
    cases p.isEmpty <;> cases q.isEmpty <;> simp
  · have hmap : os.map optionTag = qs.map optionTag := by
      rw [← filter_listTags p, h, filter_listTags]
    exact List.map_injective_iff.mpr optionTag_injective hmap

/-- The lines of a drop-down list behind the first one. -/
def listLines (placeholder : String) (os : List String) : List Line :=
  (if placeholder.isEmpty then [] else [hintLine placeholder]) ++
    (os.map optionLine ++ [flat (endTag "select")])

theorem tagged_list (width depth : Nat) (placeholder : String) (os : List String) :
    Tagged (dialect.block width depth (listLines placeholder os)).toList
      (listTags placeholder os) := by
  have hend : Tagged (dialect.block width depth [flat (endTag "select")]).toList
      ["/select".toList] := by
    have hplain : IsPlain "/select".toList := by decide
    exact tagged_block ⟨_, readAs_tag hplain.stays, rfl⟩
  have hrest := (tagged_options width depth os).append hend
  rw [← String.toList_append, ← Dialect.block_append] at hrest
  rw [listLines, listTags, Dialect.block_append, String.toList_append]
  refine Tagged.append ?_ hrest
  split
  next => exact ⟨[], readAs_nil, rfl⟩
  next => exact tagged_hint width depth placeholder

/-- The page tells the texts of a drop-down list. -/
theorem listLines_inj {width depth : Nat} {p q : String} {os qs : List String}
    (h : dialect.block width depth (listLines p os) = dialect.block width depth (listLines q qs)) :
    p = q ∧ os = qs := by
  have htags := tagged_list width depth p os
  rw [h] at htags
  obtain ⟨hempty, rfl⟩ := listTags_inj (htags.unique (tagged_list width depth q qs))
  refine ⟨?_, rfl⟩
  -- what is left is the line of the placeholder, if there is one
  by_cases hp : p.isEmpty = true
  · have hq : q.isEmpty = true := hempty ▸ hp
    rw [String.isEmpty_iff.mp hp, String.isEmpty_iff.mp hq]
  · have hq : ¬ q.isEmpty = true := hempty ▸ hp
    rw [listLines, listLines, if_neg hp, if_neg hq, dialect.block_append width depth [hintLine p],
      dialect.block_append width depth [hintLine q], String.append_left_inj] at h
    exact dialect.eq_of_block_eq h

theorem leaf_select_lines (a : Option Animation) (s : SelectField) :
    leaf a (.select s) = [selectLine a s] ++ listLines s.placeholder s.optionList := by
  rw [leaf_select, listLines, ← List.append_assoc, ← List.append_assoc]
  rfl

end React

/-! ## Other texts in the same place -/

/-- The texts of a leaf that stand between tags. -/
def Leaf.texts : Leaf → List String
  | .button b => [b.label]
  | .text t => [t.content]
  | .select s => s.placeholder :: s.optionList
  | _ => []

/-- A leaf has other texts between its tags and is the same in everything else. -/
inductive Leaf.Reworded : Leaf → Leaf → Prop
  | button (b : Button) (label : String) :
      Reworded (.button b) (.button { b with label := label })
  | text (t : TextBlock) (content : String) :
      Reworded (.text t) (.text { t with content := content })
  | select (s : SelectField) (placeholder options : String) :
      Reworded (.select s) (.select { s with placeholder := placeholder, options := options })

namespace React

theorem texts_eq_of_block_eq {width depth : Nat} {a : Option Animation} {l m : Leaf}
    (hl : l.Reworded m)
    (h : dialect.block width depth (leaf a m) = dialect.block width depth (leaf a l)) :
    m.texts = l.texts := by
  cases hl with
  | button b label => exact congrArg (fun s => [s]) (dialect.eq_of_block_eq h)
  | text t content => exact congrArg (fun s => [s]) (dialect.eq_of_block_eq h)
  | select s placeholder options =>
      rw [leaf_select_lines, leaf_select_lines, dialect.block_append, dialect.block_append] at h
      obtain ⟨hplaceholder, hoptions⟩ := listLines_inj ((String.append_right_inj _).mp h)
      exact congrArg₂ List.cons hplaceholder hoptions

/-- A page tells the texts in every place of it. -/
theorem texts_eq_of_page_eq {width : Int} {f : Forest ι} {place : Address} {i : ι}
    {a : Option Animation} {l m : Leaf} (hf : f.Holds place (.leaf i a l)) (hl : l.Reworded m)
    (h : dialect.render width (f.replaceAt place (.leaf i a m)) = dialect.render width f) :
    m.texts = l.texts := by
  -- both leaves stand in the same frame
  obtain ⟨n, before, behind, hframe⟩ := dialect.exists_frame width.toNat 0 hf
  have hself := hframe (.leaf i a l)
  rw [hf.exchangeAt_self] at hself
  rw [Dialect.render_eq, Dialect.render_eq, hf.replaceAt_eq, hframe, hself,
    String.append_left_inj, String.append_right_inj, String.append_left_inj,
    String.append_right_inj] at h
  exact texts_eq_of_block_eq hl h

end React

end PageDesign

namespace PageDesign.Jsx

open Escape Markup

/-! ## The law -/

/-- A text between tags is read back, and its special characters stand in groups. -/
structure Reversible (s : String) : Prop where
  /-- A reader comes by a piece for each character of the text. -/
  scan : pieces (jsxText s).toList = some (s.toList.map Piece.ofChar)
  /-- The pieces are all that is written. -/
  whole : (s.toList.map Piece.ofChar).flatMap Piece.written = (jsxText s).toList
  /-- A piece is a group around a special character, or a character that is not special. -/
  groups : ∀ p ∈ s.toList.map Piece.ofChar,
    (∃ c ∈ ['{', '}', '<', '>'], p = .expression ['\x27', c, '\x27']) ∨
      ∃ c, c ∉ ['{', '}', '<', '>'] ∧ p = .char c
  shown : (s.toList.map Piece.ofChar).flatMap Piece.shown = s.toList
  /-- So is the text, if each group gives way to its character from left to right. -/
  read : readJsx (jsxText s).toList = s.toList

theorem reversible (s : String) : Reversible s := by
  constructor
  case scan => exact (readAs_jsxText s).pieces
  case whole =>
    rw [List.flatMap_map, jsxText, String.toList_ofList]
    simp only [Piece.written_ofChar]
  case groups =>
    intro p hp
    obtain ⟨c, -, rfl⟩ := List.mem_map.mp hp
    have hspecial : isJsxSpecial c = true ↔ c ∈ ['{', '}', '<', '>'] := by
      simp [isJsxSpecial, or_assoc]
    unfold Piece.ofChar
    split
    next h => exact .inl ⟨c, hspecial.mp h, rfl⟩
    next h => exact .inr ⟨c, fun hmem => h (hspecial.mpr hmem), rfl⟩
  case shown =>
    rw [List.flatMap_map]
    simp only [Piece.shown_ofChar, List.flatMap_singleton']
  case read => exact readJsx_jsxText s

/-- Every text between JSX tags can be read back, so different texts are written differently, and a
line displays one text at most.  From the label of a button on, the characters of the label and the
tag behind them are all that is read, whatever stands in front of it; the line is a tag, the label
and a tag if the handler does not leave its braces.  The line of a text, and those of the placeholder
and of each option of a drop-down list, are a tag, the text and a tag.  Where other texts are put in
the place of those of a leaf, the page is another one, unless they are the same. -/
theorem texts_inert :
    (∀ s, Reversible s) ∧ Function.Injective jsxText ∧
    (∀ line s t, Displays line s → Displays line t → s = t) ∧
    (∀ (a : Option Animation) (b : Button), ∃ before, ∀ label,
      React.leaf a (.button { b with label := label }) =
        [flat (before ++ jsxText label ++ "</button>")] ∧
      pieces (jsxText label ++ "</button>").toList =
        some (label.toList.map Piece.ofChar ++ [.tag "/button".toList]) ∧
      ((∀ code ∈ b.onClick, Closed code) →
        Displays (flat (before ++ jsxText label ++ "</button>")) label)) ∧
    (∀ a t, ∃ line, React.leaf a (.text t) = [line] ∧ Displays line t.content) ∧
    (∀ a s, React.leaf a (.select s) =
      React.selectLine a s ::
        (if s.placeholder.isEmpty then [] else [React.hintLine s.placeholder]) ++
        s.optionList.map React.optionLine ++ [flat "</select>"]) ∧
    (∀ s, Displays (React.hintLine s) s ∧ Displays (React.optionLine s) s) ∧
    ∀ (width : Int) (f : Forest Id) (place : Address) (i : Id) (a : Option Animation) (l m : Leaf),
      f.Holds place (.leaf i a l) → l.Reworded m →
      React.dialect.render width (f.replaceAt place (.leaf i a m)) =
        React.dialect.render width f → m.texts = l.texts := by
  refine ⟨reversible, jsxText_injective, fun line s t hs ht => hs.unique ht, fun a b => ?_,
    React.displays_text, React.leaf_select,
    fun s => ⟨React.displays_hint s, React.displays_option s⟩,
    fun width f place i a l m hf hl h => React.texts_eq_of_page_eq hf hl h⟩
  refine ⟨tag "button" (React.buttonAttributes a b),
    fun label => ⟨React.leaf_button a { b with label := label }, ?_, fun hclosed => ?_⟩⟩
  · have hend : IsPlain "/button".toList := by decide
    have hrest := (readAs_jsxText label).append (readAs_tag hend.stays)
    rw [String.toList_append]
    exact hrest.pieces
  · exact React.displays_button a (b := { b with label := label }) hclosed

/-- A button in a card, with a label that holds a group and the end of a button. -/
theorem texts_inert_sample :
    let b : Button := { label := "\x7b'<'\x7d</button>", onClick := some "open" }
    let f : Forest Id := [.branch "c" none (.card {}) [.leaf "b" none (.button b)]]
    (∀ code ∈ b.onClick, Closed code) ∧
      (∃ line, React.leaf none (.button b) = [line] ∧ Displays line b.label) ∧
      f.Holds ⟨[0], 0⟩ (.leaf "b" none (.button b)) ∧
      ∀ label, label ≠ b.label →
        React.dialect.render 2
          (f.replaceAt ⟨[0], 0⟩ (.leaf "b" none (.button { b with label := label }))) ≠
            React.dialect.render 2 f := by
  intro b f
  have hclosed : ∀ code ∈ b.onClick, Closed code := by
    intro code hcode
    obtain rfl : "open" = code := Option.some.inj hcode
    exact Mode.Keeps.stays (by decide) (by decide)
  have hholds : f.Holds ⟨[0], 0⟩ (.leaf "b" none (.button b)) :=
    ⟨_, .down rfl rfl (.here _), rfl⟩
  obtain ⟨-, -, -, hbutton, -, -, -, hpage⟩ := texts_inert
  obtain ⟨before, hlines⟩ := hbutton none b
  obtain ⟨hline, -, hdisplays⟩ := hlines b.label
  refine ⟨hclosed, ⟨_, hline, hdisplays hclosed⟩, hholds, fun label hlabel hrender => hlabel ?_⟩
  have htexts : [label] = [b.label] := hpage 2 f _ _ _ _ _ hholds (.button b label) hrender
  exact (List.cons.inj htexts).1

end PageDesign.Jsx
