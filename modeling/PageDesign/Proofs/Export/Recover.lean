/-
# PageDesign.Proofs.Export.Recover -- the texts of fields and pictures are recovered from markup

Input fields, drop-down lists and pictures hold texts of a user, and so do the names of their
handlers.  Four targets put them into attribute values, a fifth into string literals.  Here stands
for each of these leaves what can be looked up on its lines (`inputTexts`, `selectTexts`,
`imageTexts`), and `RecoversFields` says it of a target.

In the fifth target a bound attribute is an expression with the name of a variable in it, which is
written as it is.  Only the type of an input field stands in front of a literal, so a quote in the
name that it is bound to is the one case in which the word in front of the placeholder does not tell
where it begins; where it begins does not depend on the placeholder either (`exists_literalInput`).

`quoted_texts_recovered` puts this together with the escapes themselves.
-/
import Mathlib.Data.List.Forall2
import PageDesign.Export.Target
import PageDesign.Proofs.Export.Quotation

namespace PageDesign.Markup

open Escape

/-! ## What is looked up -/

/-- What the handlers of a target are looked up as, by the event. -/
abbrev Handlers := String → Option String → List (String × String)

/-- The handlers of a target do not stand between quotes. -/
def Handlers.none : Handlers := fun _ _ => []

/-- The texts on the line of an input field. -/
def inputTexts (on : Handlers) (i : InputField) : List (String × String) :=
  ("placeholder=", i.placeholder) :: on "change" i.onChange ++ on "input" i.onInput

/-- The texts of a picture, without its handler. -/
def pictureTexts (i : Image) : List (String × String) :=
  [("src=", i.src), ("alt=", i.alt)] ++ handed "width=" (fun s => s) i.width ++
    handed "height=" (fun s => s) i.height

/-- The texts on the line of a picture. -/
def imageTexts (on : Handlers) (i : Image) : List (String × String) :=
  pictureTexts i ++ on "click" i.onClick

/-- The texts on the lines of a drop-down list: on the first, on that of the placeholder if there
is one, on those of the options, and on the last. -/
def selectTexts (on : Handlers) (hint option : String → List (String × String))
    (s : SelectField) : List (List (String × String)) :=
  on "change" s.onChange :: (if s.placeholder.isEmpty then [] else [hint s.placeholder]) ++
    s.optionList.map option ++ [[]]

/-- The lines of a leaf with what can be looked up on each. -/
def RecoversAll (q : Quoting) (lines : List Line) (tss : List (List (String × String))) : Prop :=
  List.Forall₂ (Recovers q) lines tss

theorem recoversAll_singleton {q : Quoting} {line : Line} {ts : List (String × String)}
    (h : Recovers q line ts) : RecoversAll q [line] [ts] := .cons h .nil

theorem recoversAll_selectLines {q : Quoting} {on : Handlers}
    {hint option : String → List (String × String)} {as hintAttributes : List Attribute}
    {value : String → Attribute} {content : String → String} (s : SelectField)
    (hfirst : Recovers q (flat (tag "select" as)) (on "change" s.onChange))
    (hhint : ∀ p, Recovers q (nested (element "option" hintAttributes (content p))) (hint p))
    (hoption : ∀ o, Recovers q (nested (element "option" [value o] (content o))) (option o)) :
    RecoversAll q (selectLines as hintAttributes value content s)
      (selectTexts on hint option s) := by
  unfold selectLines selectTexts
  refine List.rel_append (List.rel_append (.cons hfirst ?_) ?_) (.cons (recovers_nil q _) .nil)
  · split
    next => exact .nil
    next => exact .cons (hhint _) .nil
  · rw [List.forall₂_map_left_iff, List.forall₂_map_right_iff, List.forall₂_same]
    exact fun o _ => hoption o

/-- What a kind of markup with escaped attribute values recovers. -/
structure RecoversFields (d : Dialect) (on : Handlers) : Prop where
  input : ∀ a i, RecoversAll .value (d.leaf a (.input i)) [inputTexts on i]
  select : ∀ a s, RecoversAll .value (d.leaf a (.select s))
    (selectTexts on (fun _ => []) (fun o => [("value=", o)]) s)
  image : ∀ a i, RecoversAll .value (d.leaf a (.image i)) [imageTexts on i]

/-- An option of a drop-down list carries its value in front of its content. -/
theorem recovers_option (o content : String) :
    Recovers .value (nested (element "option" [.escaped "value" o] content))
      [("value=", o)] := by
  have hvalue : Carries .value (written [.escaped "value" o]) [("value=", o)] :=
    carries_escaped (by decide) o
  have hline : (element "option" ([.escaped "value" o] ++ []) content).toList =
      '<' :: "option".toList ++ (written ([.escaped "value" o] ++ []) ++
        '>' :: (content.toList ++ (endTag "option").toList)) := toList_element _ _ _
  exact recovers_of_first hline (by decide) hvalue (labelled_self _) (by simp)
    (List.Subset.refl _)

theorem carries_imageAttributes (i : Image) :
    Carries .value (written (imageAttributes i)) (pictureTexts i) := by
  have hsrc : Carries .value (written [.escaped "src" i.src]) [("src=", i.src)] :=
    carries_escaped (by decide) i.src
  have halt : Carries .value (written [.escaped "alt" i.alt]) [("alt=", i.alt)] :=
    carries_escaped (by decide) i.alt
  have hwidth (s : String) : Carries .value (written [.escaped "width" s]) [("width=", s)] :=
    carries_escaped (by decide) s
  have hheight (s : String) : Carries .value (written [.escaped "height" s]) [("height=", s)] :=
    carries_escaped (by decide) s
  exact carries_written_append (carries_written_append (carries_written_cons hsrc halt)
    (carries_given hwidth i.width)) (carries_given hheight i.height)

theorem labelled_pictureTexts (i : Image) :
    Labelled (pictureTexts i) ["src=", "alt=", "width=", "height="] :=
  (Labelled.append (labelled_self [("src=", i.src), ("alt=", i.alt)])
    (labelled_handed _ _ _)).append (labelled_handed _ _ _)

/-! ## Plain HTML -/

/-- A handler is called in an attribute value. -/
def called : Handlers := fun event => handed ("on" ++ event ++ "=") (· ++ "()")

theorem carries_called (event : String) (h : IsWord ("on" ++ event).toList) (o : Option String) :
    Carries .value (written (Html.on event o)) (called event o) :=
  carries_given (fun s => carries_escaped h (s ++ "()")) o

theorem labelled_called (event : String) (o : Option String) :
    Labelled (called event o) ["on" ++ event ++ "="] := labelled_handed _ _ _

theorem carries_type (t : InputType) :
    Carries .value (written [.quoted "type" (Choice.name t)]) [("type=", Choice.name t)] := by
  have hquote : '"' ∉ (Choice.name t).toList := by cases t <;> decide
  have hamp : '&' ∉ (Choice.name t).toList := by cases t <;> decide
  exact carries_quoted (by decide) hquote hamp

/-- The type and the placeholder of an input field come first. -/
theorem carries_inputAttributes (i : InputField) :
    Carries .value (written (Html.inputAttributes i))
      [("type=", Choice.name i.inputType), ("placeholder=", i.placeholder)] := by
  have hplaceholder : Carries .value (written [.escaped "placeholder" i.placeholder])
      [("placeholder=", i.placeholder)] := carries_escaped (by decide) i.placeholder
  exact carries_written_cons (carries_type i.inputType) hplaceholder

theorem carries_inputState (i : InputField) : Carries .value (written (Html.inputState i))
    (called "change" i.onChange ++ called "input" i.onInput) := by
  have hflags : Carries .value
      (written (flagIf "required" i.required ++ flagIf "disabled" i.disabled)) [] :=
    carries_written_append (carries_flagIf .value (by decide) i.required)
      (carries_flagIf .value (by decide) i.disabled)
  exact carries_written_append (carries_written_append hflags
    (carries_called "change" (by decide) i.onChange)) (carries_called "input" (by decide) i.onInput)

theorem recovers_input {further : List Attribute} {fts : List (String × String)}
    {ls : List String} (hfurther : Carries .value (written further) fts)
    (hfts : Labelled fts ls)
    (hls : (["type=", "placeholder="] ++ ls ++ ["onchange=", "oninput="]).Nodup) (i : InputField)
    (bs : List Attribute) : Recovers .value
      (flat (tag "input" (Html.inputAttributes i ++ further ++ Html.inputState i ++ bs)))
      (inputTexts called i) := by
  have hcarries := carries_written_append
    (carries_written_append (carries_inputAttributes i) hfurther) (carries_inputState i)
  have hlabels := ((labelled_self
    [("type=", Choice.name i.inputType), ("placeholder=", i.placeholder)]).append hfts).append
      ((labelled_called "change" i.onChange).append (labelled_called "input" i.onInput))
  refine recovers_of_first (toList_tag "input" _) (by decide) hcarries hlabels hls ?_
  intro t ht
  simp only [inputTexts, List.mem_append, List.mem_cons] at ht ⊢
  grind

theorem recovers_image {further bs : List Attribute} {fts : List (String × String)}
    {ls : List String} (hfurther : Carries .value (written further) fts)
    (hfts : Labelled fts ls)
    (hls : (["src=", "alt=", "width=", "height="] ++ ls ++ ["onclick="]).Nodup) (i : Image) :
    Recovers .value
      (flat (emptyTag "img" (imageAttributes i ++ further ++ Html.on "click" i.onClick ++ bs)))
      (imageTexts called i) := by
  have hcarries := carries_written_append
    (carries_written_append (carries_imageAttributes i) hfurther)
    (carries_called "click" (by decide) i.onClick)
  have hlabels :=
    ((labelled_pictureTexts i).append hfts).append (labelled_called "click" i.onClick)
  refine recovers_of_first (toList_emptyTag "img" _) (by decide) hcarries hlabels hls ?_
  intro t ht
  simp only [imageTexts, List.mem_append] at ht ⊢
  grind

theorem recoversAll_select {first : List Attribute} {fts : List (String × String)}
    {ls : List String} (hfirst : Carries .value (written first) fts)
    (hfts : Labelled fts ls) (hls : (ls ++ ["onchange="]).Nodup) (a : Option Animation)
    (s : SelectField) : RecoversAll .value (Html.select first a s)
      (selectTexts called (fun _ => []) (fun o => [("value=", o)]) s) := by
  refine recoversAll_selectLines s ?hfirst ?hhint ?hoption
  case hfirst =>
    have hstate : Carries .value (written (first ++ flagIf "disabled" s.disabled)) fts := by
      rw [← List.append_nil fts]
      exact carries_written_append hfirst (carries_flagIf .value (by decide) s.disabled)
    have hcarries := carries_written_append hstate
      (carries_called "change" (by decide) s.onChange)
    have hlabels := hfts.append (labelled_called "change" s.onChange)
    exact recovers_of_first (toList_tag "select" _) (by decide) hcarries hlabels hls
      (List.subset_append_right _ _)
  case hhint => exact fun p => recovers_nil _ _
  case hoption => exact fun o => recovers_option o o

theorem recoversFields_html : RecoversFields Html.dialect called := by
  have hnone : Carries .value (written []) [] := carries_of_notMem .value List.not_mem_nil
  constructor
  case input =>
    intro a i
    have hrecovers := recovers_input hnone (labelled_self []) (by decide) i
      (styled (Style.animation a))
    rw [List.append_nil] at hrecovers
    exact recoversAll_singleton hrecovers
  case select => exact fun a s => recoversAll_select hnone (labelled_self []) (by decide) a s
  case image =>
    exact fun a i => recoversAll_singleton (recovers_image hnone (labelled_self []) (by decide) i)

theorem carries_classes (cs : List String) (hquote : '"' ∉ (" ".intercalate cs).toList)
    (hamp : '&' ∉ (" ".intercalate cs).toList) :
    Carries .value (written [Tailwind.classes cs]) [("class=", " ".intercalate cs)] := by
  have hname : IsWord "class".toList := by decide
  exact carries_quoted hname hquote hamp

theorem recoversFields_tailwind : RecoversFields Tailwind.dialect called := by
  constructor
  case input =>
    intro a i
    have hrecovers := recovers_input
      (carries_classes ["w-full px-4 py-2 border border-gray-300 rounded-md",
        "focus:ring-2 focus:ring-blue-500 focus:border-transparent"] (by decide +kernel)
        (by decide +kernel)) (labelled_self _) (by decide) i (styled (Style.animation a))
    rw [List.append_assoc (Html.inputAttributes i)] at hrecovers
    exact recoversAll_singleton hrecovers
  case select =>
    exact fun a s => recoversAll_select (carries_classes _ (by decide +kernel) (by decide +kernel))
      (labelled_self _) (by decide) a s
  case image =>
    exact fun a i => recoversAll_singleton (recovers_image
      (carries_classes _ (by decide +kernel) (by decide +kernel)) (labelled_self _) (by decide) i)

/-! ## Vue and React -/

/-- A handler is named in an attribute value. -/
def listened : Handlers := fun event => handed ("@" ++ event ++ "=") (fun h => h)

theorem carries_listened {event : String} (h : IsWord ("@" ++ event).toList) (o : Option String) :
    Carries .value (written (Vue.on event o)) (listened event o) :=
  carries_given (carries_escaped h) o

theorem carries_state {name : String} (h : IsWord (":" ++ name).toList) (b : Bool) :
    Carries .value (written [Vue.state name b]) [(":" ++ name ++ "=", truth b)] := by
  have hquote : '"' ∉ (truth b).toList := by cases b <;> decide
  have hamp : '&' ∉ (truth b).toList := by cases b <;> decide
  exact carries_quoted h hquote hamp

/-- Behind the attributes of a picture its handler is listened to. -/
theorem carries_listenedImage (i : Image) :
    Carries .value (written (imageAttributes i ++ Vue.on "click" i.onClick))
      (imageTexts listened i) :=
  carries_written_append (carries_imageAttributes i) (carries_listened (by decide) i.onClick)

theorem carries_listenedInput (i : InputField) :
    Carries .value
      (written ([.quoted "type" (Choice.name i.inputType), .escaped "placeholder" i.placeholder,
        Vue.state "required" i.required, Vue.state "disabled" i.disabled] ++
          Vue.on "change" i.onChange ++ Vue.on "input" i.onInput))
      ([("type=", Choice.name i.inputType), ("placeholder=", i.placeholder),
        (":required=", truth i.required), (":disabled=", truth i.disabled)] ++
          listened "change" i.onChange ++ listened "input" i.onInput) := by
  have hplaceholder : Carries .value (written [.escaped "placeholder" i.placeholder])
      [("placeholder=", i.placeholder)] := carries_escaped (by decide) i.placeholder
  have hrequired : Carries .value (written [Vue.state "required" i.required])
      [(":required=", truth i.required)] := carries_state (by decide) i.required
  have hdisabled : Carries .value (written [Vue.state "disabled" i.disabled])
      [(":disabled=", truth i.disabled)] := carries_state (by decide) i.disabled
  have hfour := carries_written_cons (carries_type i.inputType)
    (carries_written_cons hplaceholder (carries_written_cons hrequired hdisabled))
  exact carries_written_append (carries_written_append hfour
    (carries_listened (by decide) i.onChange)) (carries_listened (by decide) i.onInput)

theorem carries_listenedSelect (s : SelectField) :
    Carries .value (written (Vue.state "disabled" s.disabled :: Vue.on "change" s.onChange))
      ((":disabled=", truth s.disabled) :: listened "change" s.onChange) := by
  have hdisabled : Carries .value (written [Vue.state "disabled" s.disabled])
      [(":disabled=", truth s.disabled)] := carries_state (by decide) s.disabled
  exact carries_written_cons hdisabled (carries_listened (by decide) s.onChange)

theorem recoversFields_vue : RecoversFields Vue.dialect listened := by
  have hlistened (event : String) (o : Option String) :
      Labelled (listened event o) ["@" ++ event ++ "="] := labelled_handed _ _ _
  constructor
  case input =>
    intro a i
    have hlabels : Labelled ([("type=", Choice.name i.inputType), ("placeholder=", i.placeholder),
        (":required=", truth i.required), (":disabled=", truth i.disabled)] ++
          listened "change" i.onChange ++ listened "input" i.onInput)
        (["type=", "placeholder=", ":required=", ":disabled="] ++ ["@change="] ++ ["@input="]) :=
      ((labelled_self _).append (hlistened "change" _)).append (hlistened "input" _)
    refine recoversAll_singleton (recovers_of_first (toList_emptyTag "input" _) (by decide)
      (carries_listenedInput i) hlabels (by decide) ?_)
    intro t ht
    simp only [inputTexts, List.mem_append, List.mem_cons] at ht ⊢
    grind
  case select =>
    intro a s
    have hlabels : Labelled ((":disabled=", truth s.disabled) :: listened "change" s.onChange)
        [":disabled=", "@change="] := (hlistened "change" _).cons _ _
    show RecoversAll .value (selectLines
      (Vue.state "disabled" s.disabled :: Vue.on "change" s.onChange ++ styled (Style.animation a))
      hint (.escaped "value") (fun content => content) s) _
    refine recoversAll_selectLines s ?hfirst ?hhint ?hoption
    case hfirst =>
      exact recovers_of_first (toList_tag "select" _) (by decide) (carries_listenedSelect s)
        hlabels (by decide) (List.subset_cons_self _ _)
    case hhint => exact fun p => recovers_nil _ _
    case hoption => exact fun o => recovers_option o o
  case image =>
    intro a i
    have hlabels : Labelled (imageTexts listened i)
        (["src=", "alt=", "width=", "height="] ++ ["@click="]) :=
      (labelled_pictureTexts i).append (hlistened "click" i.onClick)
    exact recoversAll_singleton (recovers_of_first (toList_emptyTag "img" _) (by decide)
      (carries_listenedImage i) hlabels (by decide) (List.Subset.refl _))

theorem recoversFields_react : RecoversFields React.dialect Handlers.none := by
  constructor
  case input =>
    intro a i
    have hlabels : Labelled [("type=", Choice.name i.inputType), ("placeholder=", i.placeholder)]
        ["type=", "placeholder="] := labelled_self _
    let further : List Attribute :=
      [React.state "required" i.required, React.state "disabled" i.disabled] ++
        React.on "Change" i.onChange ++ React.on "Input" i.onInput ++
        React.styled (Style.animation a)
    show RecoversAll .value [flat (emptyTag "input" (Html.inputAttributes i ++ further))] _
    refine recoversAll_singleton (recovers_of_first (toList_emptyTag "input" _) (by decide)
      (carries_inputAttributes i) hlabels (by decide) ?_)
    exact List.subset_cons_self _ _
  case select =>
    intro a s
    show RecoversAll .value (selectLines
      ([.quoted "defaultValue" "", React.state "disabled" s.disabled] ++
        React.on "Change" s.onChange ++ React.styled (Style.animation a))
      [.quoted "value" "", .flag "disabled"] (.escaped "value") jsxText s) _
    refine recoversAll_selectLines s ?hfirst ?hhint ?hoption
    case hfirst => exact recovers_nil _ _
    case hhint => exact fun p => recovers_nil _ _
    case hoption => exact fun o => recovers_option o (jsxText o)
  case image =>
    intro a i
    let further : List Attribute :=
      React.on "Click" i.onClick ++ React.styled (Style.animation a)
    have hassoc : imageAttributes i ++ React.on "Click" i.onClick ++
        React.styled (Style.animation a) = imageAttributes i ++ further := List.append_assoc _ _ _
    show RecoversAll .value [flat (emptyTag "img" (imageAttributes i ++
      React.on "Click" i.onClick ++ React.styled (Style.animation a)))] _
    rw [hassoc]
    refine recoversAll_singleton (recovers_of_first (toList_emptyTag "img" _) (by decide)
      (carries_imageAttributes i) (labelled_pictureTexts i) (by decide) ?_)
    rw [imageTexts, Handlers.none, List.append_nil]
    exact List.Subset.refl _

/-! ## Leptos -/

/-- A string literal carries its text in every position. -/
theorem carries_quotedText {name : String} (hname : IsWord name.toList) (s : String) :
    Carries .literal (written [.bare name (quoted s)]) [(name ++ "=", s)] := by
  intro word
  refine ⟨[], ?_⟩
  simpa [written, Attribute.text, quoted] using reads_assigned hname (encodes_literal s) word

theorem carries_literalGiven {name : String} (hname : IsWord name.toList) (o : Option String) :
    Carries .literal (written (Leptos.written (Leptos.given name o)))
      (handed (name ++ "=") (fun s => s) o) := by
  cases o with
  | none => exact carries_of_notMem _ List.not_mem_nil
  | some s =>
      rw [Leptos.given, handed]
      split
      next => exact carries_of_notMem _ List.not_mem_nil
      next => exact carries_quotedText hname s

/-- A picture is written with its texts as string literals in front of its handler. -/
theorem carries_literalImage (i : Image) :
    Carries .literal (written (Leptos.written ([("src", quoted i.src), ("alt", quoted i.alt)] ++
      Leptos.given "width" i.width ++ Leptos.given "height" i.height))) (pictureTexts i) := by
  have hsrc : Carries .literal (written [.bare "src" (quoted i.src)]) [("src=", i.src)] :=
    carries_quotedText (by decide) i.src
  have halt : Carries .literal (written [.bare "alt" (quoted i.alt)]) [("alt=", i.alt)] :=
    carries_quotedText (by decide) i.alt
  rw [Leptos.written, List.map_append, List.map_append]
  exact carries_written_append (carries_written_append (carries_written_cons hsrc halt)
    (carries_literalGiven (by decide) i.width)) (carries_literalGiven (by decide) i.height)

theorem recoversAll_literalImage (p : Preset) (a : Option Animation) (i : Image) :
    RecoversAll .literal ((Leptos.dialect p).leaf a (.image i)) [imageTexts Handlers.none i] := by
  show RecoversAll .literal [flat (emptyTag "img" (Leptos.written (Leptos.imageAttributes a i)))] _
  let further : Leptos.Attributes :=
    Leptos.on "click" i.onClick ++ Leptos.styled (Style.animation a)
  have hassoc : Leptos.imageAttributes a i = [("src", quoted i.src), ("alt", quoted i.alt)] ++
      Leptos.given "width" i.width ++ Leptos.given "height" i.height ++ further :=
    List.append_assoc _ _ _
  rw [hassoc, Leptos.written, List.map_append]
  refine recoversAll_singleton (recovers_of_first (toList_emptyTag "img" _) (by decide)
    (carries_literalImage i) (labelled_pictureTexts i) (by decide) ?_)
  rw [imageTexts, Handlers.none, List.append_nil]
  exact List.Subset.refl _

theorem toList_quoted (s : String) : (quoted s).toList = '"' :: ((literal s).toList ++ ['"']) := by
  simp [quoted]

theorem recovers_literalOption (o : String) :
    Recovers .literal (nested (element "option" [.bare "value" (quoted o)] (quoted o)))
      [("value=", o), (">", o)] := by
  have hcontent : Carries .literal (written [.bare "value" (quoted o)] ++
      '>' :: (quoted o).toList) [("value=", o), (">", o)] := by
    intro word
    refine ⟨[], ?_⟩
    have hname : IsWord "value".toList := by decide
    have hvalue := reads_assigned hname (encodes_literal o) word
    have hmark : IsWord ['>'] := by decide
    have hinside := (reads_word .literal [] hmark).append ((encodes_literal o).reads _)
    rw [toList_quoted]
    simpa [written, Attribute.text, quoted] using hvalue.append hinside
  exact recovers_of_element rfl (by decide) hcontent (labelled_self _) (by simp)
    (List.Subset.refl _)

theorem recovers_literalHint (p : String) :
    Recovers .literal (nested (element "option" hint (quoted p))) [("selected>", p)] := by
  have hcontent : Carries .literal (written hint ++ '>' :: (quoted p).toList)
      [("value=", ""), ("selected>", p)] := by
    intro word
    refine ⟨[], ?_⟩
    have hname : IsWord "value".toList := by decide
    have hvalue := reads_assigned hname (encodes_literal "") word
    have hdisabled : IsWord "disabled".toList := by decide
    have hselected : IsWord "selected>".toList := by decide
    have hflags := ((reads_blank .literal []).append (reads_word .literal [] hdisabled)).append
      ((reads_blank .literal _).append (reads_word .literal [] hselected))
    have hinside := hflags.append ((encodes_literal p).reads _)
    rw [toList_quoted]
    simpa [written, hint, Attribute.text, literal] using hvalue.append hinside
  exact recovers_of_element rfl (by decide) hcontent (labelled_self _) (by simp)
    (List.subset_cons_self _ _)

theorem recoversAll_literalSelect (p : Preset) (a : Option Animation) (s : SelectField) :
    RecoversAll .literal ((Leptos.dialect p).leaf a (.select s))
      (selectTexts Handlers.none (fun h => [("selected>", h)])
        (fun o => [("value=", o), (">", o)]) s) := by
  show RecoversAll .literal (selectLines (Leptos.written (Leptos.selectAttributes a s)) hint
    (fun o => .bare "value" (quoted o)) quoted s) _
  refine recoversAll_selectLines s ?hfirst ?hhint ?hoption
  case hfirst => exact recovers_nil _ _
  case hhint => exact recovers_literalHint
  case hoption => exact recovers_literalOption

/-- The second of some attributes stays where it is if it is not bound, whatever the first one is
bound to. -/
theorem exists_bind_second (bs : Bindings) (first : String) {second : String}
    (hnot : second ∉ bs.map (·.1)) (t : String) (rest : Leptos.Attributes) :
    ∃ t' rest', (t' = t ∨ ∃ name, (first, name) ∈ bs ∧ t' = Leptos.reactive name) ∧
      ∀ u, Leptos.bind ((first, t) :: (second, u) :: rest) bs =
        (first, t') :: (second, u) :: rest' := by
  induction bs generalizing t rest with
  | nil => exact ⟨t, rest, .inl rfl, fun u => rfl⟩
  | cons b bs ih =>
      obtain ⟨attr, name⟩ := b
      rw [List.map_cons, List.mem_cons, not_or] at hnot
      obtain ⟨hsecond, hbs⟩ := hnot
      have hstep (as : Leptos.Attributes) : Leptos.bind as ((attr, name) :: bs) =
          Leptos.bind (Keyed.put attr (Leptos.reactive name) as) bs := rfl
      by_cases hfirst : first = attr
      · obtain ⟨t', rest', ht', hall⟩ := ih hbs (Leptos.reactive name) rest
        refine ⟨t', rest', .inr ?_, fun u => ?_⟩
        · rcases ht' with rfl | ⟨other, hmem, rfl⟩
          · rw [hfirst]
            exact ⟨name, List.mem_cons_self, rfl⟩
          · exact ⟨other, List.mem_cons_of_mem _ hmem, rfl⟩
        · rw [hstep, Keyed.put, if_pos hfirst, hall]
      · obtain ⟨t', rest', ht', hall⟩ := ih hbs t (Keyed.put attr (Leptos.reactive name) rest)
        refine ⟨t', rest', ht'.imp_right ?_, fun u => ?_⟩
        · rintro ⟨other, hmem, rfl⟩
          exact ⟨other, List.mem_cons_of_mem _ hmem, rfl⟩
        · rw [hstep, Keyed.put, if_neg hfirst, Keyed.put, if_neg hsecond, hall]

/-- An input field whose placeholder is not bound is written with the placeholder as a string
literal behind the type, whatever else is bound. -/
theorem exists_literalInput (p : Preset) (a : Option Animation) (i : InputField)
    (h : "placeholder" ∉ i.bindings.map (·.1)) :
    ∃ t rest, (t = quoted (Choice.name i.inputType) ∨
        ∃ name, ("type", name) ∈ i.bindings ∧ t = Leptos.reactive name) ∧
      ∀ s, (Leptos.dialect p).leaf a (.input { i with placeholder := s }) =
        [flat (emptyTag "input"
          ([.bare "type" t, .bare "placeholder" (quoted s)] ++ Leptos.written rest))] := by
  have hquoted : "\"" ++ Choice.name i.inputType ++ "\"" = quoted (Choice.name i.inputType) := by
    cases i.inputType <;> decide
  let further : Leptos.Attributes :=
    [("required", truth i.required), ("disabled", truth i.disabled)] ++
      Leptos.on "change" i.onChange ++ Leptos.on "input" i.onInput ++
      Leptos.styled (Style.animation a)
  have hattributes (s : String) : Leptos.inputAttributes a { i with placeholder := s } =
      ("type", quoted (Choice.name i.inputType)) :: ("placeholder", quoted s) :: further := by
    rw [← hquoted]
    rfl
  obtain ⟨t, rest, ht, hall⟩ :=
    exists_bind_second i.bindings "type" h (quoted (Choice.name i.inputType)) further
  refine ⟨t, rest, ht, fun s => ?_⟩
  have hwritten : Leptos.written (("type", t) :: ("placeholder", quoted s) :: rest) =
      [.bare "type" t, .bare "placeholder" (quoted s)] ++ Leptos.written rest := rfl
  rw [← hwritten, ← hall, ← hattributes]
  rfl

/-- The placeholder of an input field is read from where it stands on the line, in front of some
text that does not depend on it. -/
theorem readLiteral_literalInput (p : Preset) (a : Option Animation) (i : InputField)
    (h : "placeholder" ∉ i.bindings.map (·.1)) :
    ∃ before behind : List Char, ∀ s, ∃ line cs,
      (Leptos.dialect p).leaf a (.input { i with placeholder := s }) = [flat line] ∧
      line.toList = before ++ (" placeholder=\"".toList ++ cs) ∧
      readLiteral '"' cs = some (s.toList, behind) := by
  obtain ⟨t, rest, -, hall⟩ := exists_literalInput p a i h
  refine ⟨"<input type=".toList ++ t.toList, written (Leptos.written rest) ++ " />".toList,
    fun s => ⟨_, _, hall s, ?_, readLiteral_literal s _⟩⟩
  rw [toList_emptyTag]
  simp [written, Attribute.text, quoted]

/-- Where the type is not bound to a name with quotes in it, the placeholder of an input field can
be looked up on its line. -/
theorem recoversAll_literalInput (p : Preset) (a : Option Animation) (i : InputField)
    (h : "placeholder" ∉ i.bindings.map (·.1))
    (htype : ∀ name, ("type", name) ∈ i.bindings → '"' ∉ name.toList) :
    RecoversAll .literal ((Leptos.dialect p).leaf a (.input i))
      [inputTexts Handlers.none i] := by
  obtain ⟨t, rest, ht, hall⟩ := exists_literalInput p a i h
  have hplaceholder : Carries .literal (written [.bare "placeholder" (quoted i.placeholder)])
      [("placeholder=", i.placeholder)] := carries_quotedText (by decide) i.placeholder
  have hself : i = { i with placeholder := i.placeholder } := rfl
  rw [hself, hall i.placeholder]
  apply recoversAll_singleton
  rcases ht with rfl | ⟨name, hname, rfl⟩
  · have hfirst : Carries .literal (written [.bare "type" (quoted (Choice.name i.inputType))])
        [("type=", Choice.name i.inputType)] := carries_quotedText (by decide) _
    have hlabels : Labelled [("type=", Choice.name i.inputType), ("placeholder=", i.placeholder)]
        ["type=", "placeholder="] := labelled_self _
    have hboth := carries_written_cons hfirst hplaceholder
    refine recovers_of_first (toList_emptyTag "input" _) (by decide) hboth hlabels (by decide) ?_
    exact List.subset_cons_self _ _
  · have hfirst : Carries .literal (written [.bare "type" (Leptos.reactive name)]) [] := by
      apply carries_of_notMem
      simpa [written, Attribute.text, Leptos.reactive] using htype name hname
    have hlabels : Labelled [("placeholder=", i.placeholder)] ["placeholder="] := labelled_self _
    have hboth := carries_written_append hfirst hplaceholder
    refine recovers_of_first (toList_emptyTag "input" _) (by decide) hboth hlabels (by decide) ?_
    exact List.Subset.refl _

/-- An attribute value and the inside of a string literal are each made from a text by two
replacements, and are read back as the text.  An attribute value has no quotes, and every ampersand
in it begins one of the two entities; a string literal is read up to the quote that was put behind
it, and no quote in it that is not escaped ends it earlier.  Therefore the texts of input fields,
drop-down lists and pictures that markup puts into attribute values or string literals can be looked
up on the lines on which they stand.  For the placeholder of an input field whose type is bound to a
name with quotes in it, the place is not told by the text in front of it, but it does not depend on
the placeholder. -/
theorem quoted_texts_recovered :
    (∀ s, (attr s).toList =
        replaceAll '"' [] "&quot;".toList (replaceAll '&' [] "&amp;".toList s.toList) ∧
      '"' ∉ (attr s).toList ∧
      (∀ before behind, (attr s).toList = before ++ '&' :: behind →
        "amp;".toList <+: behind ∨ "quot;".toList <+: behind) ∧
      readAttr (attr s).toList = s.toList) ∧
    (∀ s, (literal s).toList =
        replaceAll '"' [] ['\\', '"'] (replaceAll '\\' [] ['\\', '\\'] s.toList) ∧
      (∀ rest, readLiteral '"' ((literal s).toList ++ '"' :: rest) = some (s.toList, rest)) ∧
      ∀ cs ∈ unescaped (literal s).toList, ¬ ['"'] <+: cs) ∧
    RecoversFields Html.dialect called ∧ RecoversFields Tailwind.dialect called ∧
    RecoversFields React.dialect Handlers.none ∧ RecoversFields Vue.dialect listened ∧
    ∀ p a,
      (∀ i, RecoversAll .literal ((Leptos.dialect p).leaf a (.image i))
        [imageTexts Handlers.none i]) ∧
      (∀ s, RecoversAll .literal ((Leptos.dialect p).leaf a (.select s))
        (selectTexts Handlers.none (fun h => [("selected>", h)])
          (fun o => [("value=", o), (">", o)]) s)) ∧
      ∀ i, "placeholder" ∉ i.bindings.map (·.1) →
        (∃ before behind : List Char, ∀ s, ∃ line cs,
          (Leptos.dialect p).leaf a (.input { i with placeholder := s }) = [flat line] ∧
          line.toList = before ++ (" placeholder=\"".toList ++ cs) ∧
          readLiteral '"' cs = some (s.toList, behind)) ∧
        ((∀ name, ("type", name) ∈ i.bindings → '"' ∉ name.toList) →
          RecoversAll .literal ((Leptos.dialect p).leaf a (.input i))
            [inputTexts Handlers.none i]) := by
  refine ⟨fun s => ⟨attr_eq_replaceAll s, quote_notMem_attr s, fun before behind h =>
      entity_of_attr h, readAttr_attr s⟩,
    fun s => ⟨literal_eq_replaceAll s, readLiteral_literal s, fun cs h =>
      quote_of_unescaped_literal h⟩,
    recoversFields_html, recoversFields_tailwind, recoversFields_react, recoversFields_vue,
    fun p a => ⟨recoversAll_literalImage p a, recoversAll_literalSelect p a, fun i h =>
      ⟨readLiteral_literalInput p a i h, recoversAll_literalInput p a i h⟩⟩⟩

/-- A placeholder with quotes, an entity and a backslash at its end, in an input field with a bound
state. -/
theorem quoted_texts_recovered_sample :
    let s := "\" onfocus=\"x &quot; \\"
    let i : InputField := { placeholder := s, onInput := some "f", bindings := [("required", "b")] }
    "placeholder" ∉ i.bindings.map (·.1) ∧
      (∀ name, ("type", name) ∈ i.bindings → '"' ∉ name.toList) ∧
      RecoversAll .value (Html.dialect.leaf none (.input i))
        [[("placeholder=", s), ("oninput=", "f()")]] ∧
      RecoversAll .literal ((Leptos.dialect .plain).leaf none (.input i))
        [[("placeholder=", s)]] := by
  intro s i
  have hplaceholder : "placeholder" ∉ i.bindings.map (·.1) := by decide
  have htype : ∀ name, ("type", name) ∈ i.bindings → '"' ∉ name.toList := by
    intro name hname
    simp [i] at hname
  obtain ⟨-, -, hhtml, -, -, -, hleptos⟩ := quoted_texts_recovered
  obtain ⟨-, -, hinput⟩ := hleptos .plain none
  obtain ⟨-, hrecovers⟩ := hinput i hplaceholder
  exact ⟨hplaceholder, htype, hhtml.input none i, hrecovers htype⟩

end PageDesign.Markup
