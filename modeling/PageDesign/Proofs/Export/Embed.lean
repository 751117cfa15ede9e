/-
# PageDesign.Proofs.Export.Embed -- custom markup comes through a template literal

Three targets put the markup of a custom component into a template literal, one of them inside an
attribute value, so that two escapes stand one on top of the other.  `markup_embedded` says what is
read from the line that is written: the markup as it was, up to the end of the literal, with no
interpolation in it, whatever backslashes, grave accents, dollar signs, braces and quotes it has.
-/
import PageDesign.Export.React
import PageDesign.Export.Svelte
import PageDesign.Proofs.Export.Escape
import PageDesign.Proofs.Export.Markup

namespace PageDesign

open Markup Escape

/-! ## Lines with a template literal -/

theorem Custom.markup_eq_some {c : Custom} {s : String} (h : c.template = some s)
    (hblank : Text.isBlankText s = false) : c.markup? = some s := by
  rw [markup?, h, Option.filter_some, hblank]
  rfl

theorem Escape.toList_templateLiteral (s : String) :
    (templateLiteral s).toList = grave :: ((template s).toList ++ [grave]) := by
  simp [templateLiteral]

theorem React.toList_customContent {c : Custom} {s : String} (h : c.markup? = some s) :
    (customContent c).toList = "<div dangerouslySetInnerHTML=\x7b\x7b __html: ".toList ++
      (grave :: ((template s).toList ++ grave :: " \x7d\x7d />".toList)) := by
  simp [customContent, h, rawMarkup, emptyTag, inside, Attribute.text, braced,
    toList_templateLiteral]

theorem Svelte.toList_customContent {c : Custom} {s : String} (h : c.markup? = some s) :
    (customContent c).toList = "\x7b@html ".toList ++
      (grave :: ((template s).toList ++ grave :: "\x7d".toList)) := by
  simp [customContent, h, toList_templateLiteral]

theorem Vue.toList_customContent {c : Custom} {s : String} (h : c.markup? = some s) :
    (customContent c).toList = "<div v-html=\"".toList ++
      ((attr (templateLiteral s)).toList ++ '"' :: "></div>".toList) := by
  simp [customContent, h, element, tag, endTag, inside, Attribute.text]

/-! ## What is read from them -/

/-- A line has a template literal behind some text, from which a text is read, and some text behind
the literal. -/
def HasLiteral (line before : String) (s : String) (behind : String) : Prop :=
  ∃ cs, line.toList = before.toList ++ grave :: cs ∧
    readTemplate cs = some (s.toList, behind.toList)

/-- A line has an attribute value behind some text.  The value ends at the first quote; with its
entities read it is a template literal, from which a text is read. -/
def HasAttribute (line before : String) (s : String) (behind : String) : Prop :=
  ∃ value cs, line.toList = before.toList ++ (value ++ '"' :: behind.toList) ∧ '"' ∉ value ∧
    readAttr value = grave :: cs ∧ readTemplate cs = some (s.toList, [])

/-- What a custom component shows is written on one line of the page, behind a comment, and the line
says something. -/
def Shows (d : Dialect) (f : Forest Id) (a : Option Animation) (c : Custom)
    (meant : String → Prop) : Prop :=
  ∃ n comment line, d.leaf a (.custom c) = [flat comment, flat line] ∧ ⟨n, line⟩ ∈ d.body f ∧
    meant line

theorem shows_of_leaf {d : Dialect} {f : Forest Id} {i : Id} {a : Option Animation} {c : Custom}
    (h : .leaf i a (.custom c) ∈ f.nodes) {comment line : String} {meant : String → Prop}
    (hlines : d.leaf a (.custom c) = [flat comment, flat line]) (hmeant : meant line) :
    Shows d f a c meant := by
  obtain ⟨n, hn⟩ := d.exists_shift_mem_body h
  have hline := hn (flat line) (by simp [Dialect.opening, hlines])
  exact ⟨_, comment, line, hlines, hline, hmeant⟩

/-- The inside of a template literal is made from a text by three replacements, each of which runs
over what the one before has made.  It is read back from left to right, up to the grave accent that
was put behind it, and no character in it that is not escaped ends the literal or starts an
interpolation.  For every custom component of a forest whose markup is not blank, the line with the
literal that each of three targets writes is therefore read back as the markup. -/
theorem markup_embedded (s : String) :
    (template s).toList = replaceAll '$' ['{'] ['\\', '$', '{']
      (replaceAll grave [] ['\\', grave] (replaceAll '\\' [] ['\\', '\\'] s.toList)) ∧
    (∀ rest, readLiteral grave ((template s).toList ++ grave :: rest) = some (s.toList, rest) ∧
      readTemplate ((template s).toList ++ grave :: rest) = some (s.toList, rest)) ∧
    (∀ cs ∈ unescaped (template s).toList, ¬ [grave] <+: cs ∧ ¬ ['$', '{'] <+: cs) ∧
    ∀ (f : Forest Id) i a c, .leaf i a (.custom c) ∈ f.nodes →
      c.template = some s → Text.isBlankText s = false →
      Shows React.dialect f a c (HasLiteral · "<div dangerouslySetInnerHTML=\x7b\x7b __html: " s
        " \x7d\x7d />") ∧
      Shows Svelte.dialect f a c (HasLiteral · "\x7b@html " s "\x7d") ∧
      Shows Vue.dialect f a c (HasAttribute · "<div v-html=\"" s "></div>") := by
  refine ⟨template_eq_replaceAll s, fun rest => ?_, fun cs h => marks_of_unescaped_template h,
    fun f i a c hnode htemplate hblank => ?_⟩
  · have hread := readTemplate_template s rest
    exact ⟨readLiteral_of_readTemplate hread, hread⟩
  · have hmarkup : c.markup? = some s := c.markup_eq_some htemplate hblank
    refine ⟨shows_of_leaf hnode rfl ?_, shows_of_leaf hnode rfl ?_, shows_of_leaf hnode rfl ?_⟩
    · exact ⟨_, React.toList_customContent hmarkup, readTemplate_template s _⟩
    · exact ⟨_, Svelte.toList_customContent hmarkup, readTemplate_template s _⟩
    · refine ⟨_, _, Vue.toList_customContent hmarkup, quote_notMem_attr _, ?_,
        readTemplate_template s []⟩
      rw [readAttr_attr, toList_templateLiteral]

/-- A template with an interpolation, grave accents, an entity between quotes and a backslash at
its end stands below a card. -/
theorem markup_embedded_sample :
    let s := "$\x7ba\x7d \x60b\x60 \"&quot;\" \\"
    let c : Custom := { name := "X", template := some s }
    let f : Forest Id := [.branch "a" none (.card {}) [.leaf "c" none (.custom c)]]
    .leaf "c" none (.custom c) ∈ f.nodes ∧ c.template = some s ∧ Text.isBlankText s = false ∧
      Shows Vue.dialect f none c (HasAttribute · "<div v-html=\"" s "></div>") := by
  intro s c f
  have hnode : .leaf "c" none (.custom c) ∈ f.nodes := by
    simp [f, Forest.nodes_cons, Component.children]
  have hblank : Text.isBlankText s = false := by decide +kernel
  obtain ⟨-, -, -, hlines⟩ := markup_embedded s
  obtain ⟨-, -, hvue⟩ := hlines f "c" none c hnode rfl hblank
  exact ⟨hnode, rfl, hblank, hvue⟩

end PageDesign
