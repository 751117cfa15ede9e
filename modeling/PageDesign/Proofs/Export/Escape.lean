/-
# PageDesign.Proofs.Export.Escape -- escaped texts are read back, and they do not end early

A text that is put into an attribute value, a string literal or a template literal is escaped in
one pass over its characters.  The passes are told apart here from the replacements that they
stand for, each of which runs over all that the one before it has made (`attr_eq_replaceAll`,
`literal_eq_replaceAll`, `template_eq_replaceAll`): the escaping character itself is escaped
first, so no later replacement meets what an earlier one has put in.

Every escaped text is read back up to the end that was put behind it.  That nothing inside is
taken for the end, or for the start of an interpolation, is also said of the characters in it:
`unescaped` has those that no backslash makes ordinary ones.
-/
import Mathlib.Data.List.Infix
import PageDesign.Export.Escape

namespace PageDesign.Escape

/-! ## Replacements -/

/-- A text in which every occurrence of `first` followed by `rest`, from left to right, gives way
to other characters. -/
def replaceAll (first : Char) (rest new : List Char) : List Char → List Char
  | [] => []
  | c :: cs =>
    if c = first ∧ rest <+: cs then new ++ replaceAll first rest new (cs.drop rest.length)
    else c :: replaceAll first rest new cs
termination_by cs => cs.length
decreasing_by
  all_goals
    simp only [List.length_drop, List.length_cons]
    omega

theorem replaceAll_hit (first : Char) (rest new cs : List Char) :
    replaceAll first rest new (first :: (rest ++ cs)) = new ++ replaceAll first rest new cs := by
  rw [replaceAll, if_pos ⟨rfl, List.prefix_append rest cs⟩, List.drop_left]

theorem replaceAll_miss {first c : Char} {rest cs : List Char} (h : ¬ (c = first ∧ rest <+: cs))
    (new : List Char) :
    replaceAll first rest new (c :: cs) = c :: replaceAll first rest new cs := by
  rw [replaceAll, if_neg h]

/-- A single character is replaced wherever it stands. -/
theorem replaceAll_char (x : Char) (new cs : List Char) :
    replaceAll x [] new cs = cs.flatMap fun c => if c = x then new else [c] := by
  induction cs with
  | nil => rw [replaceAll, List.flatMap_nil]
  | cons c cs ih =>
      rw [List.flatMap_cons, ← ih]
      by_cases hc : c = x
      · subst hc
        rw [if_pos rfl]
        exact replaceAll_hit c [] new cs
      · rw [if_neg hc, replaceAll_miss (fun h => hc h.1)]
        rfl

/-- An attribute value is made by two replacements, the ampersands first. -/
theorem attr_eq_replaceAll (s : String) : (attr s).toList =
    replaceAll '"' [] "&quot;".toList (replaceAll '&' [] "&amp;".toList s.toList) := by
  rw [replaceAll_char, replaceAll_char, List.flatMap_assoc, attr, String.toList_ofList]
  congr 1
  funext c
  unfold attrChar
  by_cases hamp : c = '&'
  · subst hamp
    rfl
  · rw [if_neg hamp, if_neg hamp, List.flatMap_singleton]

/-- The inside of a string literal is made by two replacements, the backslashes first. -/
theorem literal_eq_replaceAll (s : String) : (literal s).toList =
    replaceAll '"' [] ['\\', '"'] (replaceAll '\\' [] ['\\', '\\'] s.toList) := by
  rw [replaceAll_char, replaceAll_char, List.flatMap_assoc, literal, String.toList_ofList]
  congr 1
  funext c
  unfold literalChar
  by_cases hbackslash : c = '\\'
  · subst hbackslash
    rfl
  · rw [if_neg hbackslash, List.flatMap_singleton]
    by_cases hquote : c = '"'
    · subst hquote
      rfl
    · rw [if_neg hquote, if_neg (by simp [hbackslash, hquote])]

/-- A character of a text in which backslashes and grave accents are escaped. -/
def accentChar (c : Char) : List Char := if c = '\\' ∨ c = grave then ['\\', c] else [c]

theorem flatMap_accentChar (cs : List Char) : cs.flatMap accentChar =
    replaceAll grave [] ['\\', grave] (replaceAll '\\' [] ['\\', '\\'] cs) := by
  rw [replaceAll_char, replaceAll_char, List.flatMap_assoc]
  congr 1
  funext c
  unfold accentChar
  by_cases hbackslash : c = '\\'
  · subst hbackslash
    rfl
  · rw [if_neg hbackslash, List.flatMap_singleton]
    by_cases hgrave : c = grave
    · subst hgrave
      rfl
    · rw [if_neg hgrave, if_neg (by simp [hbackslash, hgrave])]

theorem eq_brace_of_accentChar {c : Char} {ds : List Char} (h : ['{'] <+: accentChar c ++ ds) :
    c = '{' := by
  unfold accentChar at h
  split at h
  next =>
    obtain ⟨hbrace, -⟩ := List.cons_prefix_cons.mp h
    cases hbrace
  next =>
    obtain ⟨hbrace, -⟩ := List.cons_prefix_cons.mp h
    exact hbrace.symm

/-- A brace comes first in an escaped text only if it came first in the text. -/
theorem brace_of_flatMap_accentChar {cs : List Char} (h : ['{'] <+: cs.flatMap accentChar) :
    ['{'] <+: cs := by
  cases cs with
  | nil => exact h
  | cons c cs =>
      rw [List.flatMap_cons] at h
      rw [eq_brace_of_accentChar h]
      exact List.prefix_append ['{'] cs

/-! ## Template literals -/

/-- A property of texts that passes over the start of an interpolation, and over every other
character, holds of all texts. -/
theorem template_induction {motive : List Char → Prop} (nil : motive [])
    (interpolation : ∀ cs, motive cs → motive ('$' :: '{' :: cs))
    (cons : ∀ c cs, ¬ (c = '$' ∧ ['{'] <+: cs) → motive cs → motive (c :: cs)) :
    ∀ cs, motive cs := by
  have hother {c : Char} {cs : List Char} (h : ∀ ds, c = '$' → cs = '{' :: ds → False) :
      ¬ (c = '$' ∧ ['{'] <+: cs) := by
    rintro ⟨hc, ds, hcs⟩
    exact h ds hc hcs.symm
  intro cs
  induction cs using templateList.induct with
  | case1 => exact nil
  | case2 cs ih => exact interpolation cs ih
  | case3 c cs h _ ih => exact cons c cs (hother h) ih
  | case4 c cs h _ ih => exact cons c cs (hother h) ih

theorem templateList_cons {c : Char} {cs : List Char} (h : ¬ (c = '$' ∧ ['{'] <+: cs)) :
    templateList (c :: cs) = accentChar c ++ templateList cs := by
  rw [templateList]
  · unfold accentChar
    split <;> rfl
  · rintro ds rfl rfl
    exact h ⟨rfl, List.prefix_append ['{'] ds⟩

/-- The inside of a template literal is made by three replacements: of backslashes, of grave
accents, and of dollar signs before braces. -/
theorem template_eq_replaceAll (s : String) : (template s).toList =
    replaceAll '$' ['{'] ['\\', '$', '{']
      (replaceAll grave [] ['\\', grave] (replaceAll '\\' [] ['\\', '\\'] s.toList)) := by
  rw [← flatMap_accentChar, template, String.toList_ofList]
  induction s.toList using template_induction with
  | nil => rw [templateList, List.flatMap_nil, replaceAll]
  | interpolation cs ih =>
      show '\\' :: '$' :: '{' :: templateList cs =
        replaceAll '$' ['{'] _ ('$' :: (['{'] ++ cs.flatMap accentChar))
      rw [replaceAll_hit, ih]
      rfl
  | cons c cs h ih =>
      have hbackslash {ds : List Char} : ¬ ('\\' = '$' ∧ ['{'] <+: ds) := by simp
      have hc {ds : List Char} (hds : ['{'] <+: ds → ['{'] <+: cs) : ¬ (c = '$' ∧ ['{'] <+: ds) :=
        fun hstart => h ⟨hstart.1, hds hstart.2⟩
      rw [templateList_cons h, List.flatMap_cons, ih]
      by_cases hescape : c = '\\' ∨ c = grave
      · -- neither a backslash nor a grave accent starts an interpolation
        have hdollar {ds : List Char} : ¬ (c = '$' ∧ ['{'] <+: ds) := by
          rintro ⟨rfl, -⟩
          revert hescape
          decide
        rw [accentChar, if_pos hescape, List.cons_append, List.singleton_append, List.cons_append,
          List.singleton_append, replaceAll_miss hbackslash, replaceAll_miss hdollar]
      · rw [accentChar, if_neg hescape, List.singleton_append, List.singleton_append,
          replaceAll_miss (hc brace_of_flatMap_accentChar)]

/-- The inside of a template literal and what follows its end.  A backslash makes the next character
an ordinary one.  Where an interpolation starts nothing is read. -/
def readTemplate : List Char → Option (List Char × List Char)
  | [] => none
  | '\\' :: c :: cs => (readTemplate cs).map fun (inside, rest) => (c :: inside, rest)
  | '$' :: '{' :: _ => none
  | c :: cs =>
    if c = grave then some ([], cs)
    else (readTemplate cs).map fun (inside, rest) => (c :: inside, rest)

theorem readTemplate_cons {c : Char} (hc : ¬ (c = '\\' ∨ c = grave)) {cs : List Char}
    (h : ¬ (c = '$' ∧ ['{'] <+: cs)) :
    readTemplate (c :: cs) = (readTemplate cs).map fun (inside, rest) => (c :: inside, rest) := by
  rw [not_or] at hc
  rw [readTemplate]
  · rw [if_neg hc.2]
  · rintro d ds rfl
    exact absurd rfl hc.1
  · rintro ds rfl rfl
    exact h ⟨rfl, List.prefix_append ['{'] ds⟩

/-- A brace comes first in the inside of a template literal only if it came first in the text. -/
theorem brace_of_templateList {cs rest : List Char} (h : ['{'] <+: templateList cs ++ rest)
    (hrest : ¬ ['{'] <+: rest) : ['{'] <+: cs := by
  cases cs using template_induction with
  | nil => exact absurd h hrest
  | interpolation cs _ =>
      obtain ⟨hbrace, -⟩ := List.cons_prefix_cons.mp h
      cases hbrace
  | cons c cs hstart _ =>
      rw [templateList_cons hstart, List.append_assoc] at h
      rw [eq_brace_of_accentChar h]
      exact List.prefix_append ['{'] cs

/-- A template literal is read up to the grave accent that was put behind it. -/
theorem readTemplate_template (s : String) (rest : List Char) :
    readTemplate ((template s).toList ++ grave :: rest) = some (s.toList, rest) := by
  rw [template, String.toList_ofList]
  induction s.toList using template_induction with
  | nil => rfl
  | interpolation cs ih =>
      have hbrace {ds : List Char} : ¬ ('{' = '$' ∧ ['{'] <+: ds) := by simp
      show (readTemplate ('{' :: (templateList cs ++ grave :: rest))).map _ = _
      rw [readTemplate_cons (by decide) hbrace, ih, Option.map_some, Option.map_some]
  | cons c cs h ih =>
      rw [templateList_cons h, List.append_assoc, accentChar]
      split
      next =>
        show (readTemplate (templateList cs ++ grave :: rest)).map _ = _
        rw [ih, Option.map_some]
      next hescape =>
        have hstart : ¬ (c = '$' ∧ ['{'] <+: templateList cs ++ grave :: rest) := by
          rintro ⟨hc, hbrace⟩
          exact h ⟨hc, brace_of_templateList hbrace (by simp [grave])⟩
        rw [List.singleton_append, readTemplate_cons hescape hstart, ih, Option.map_some]

/-- What is read without an interpolation is read as well if interpolations are not heeded. -/
theorem readLiteral_of_readTemplate {cs : List Char} {x : List Char × List Char}
    (h : readTemplate cs = some x) : readLiteral grave cs = some x := by
  induction cs using readTemplate.induct generalizing x with
  | case1 => cases h
  | case2 c cs ih =>
      obtain ⟨y, hy, rfl⟩ := Option.map_eq_some_iff.mp h
      rw [readLiteral, ih hy, Option.map_some]
  | case3 cs => cases h
  | case4 cs hescape hstart =>
      rw [readTemplate, if_pos rfl] at h
      · rw [readLiteral, if_pos rfl, h]
        exact hescape
      · exact hescape
      · exact hstart
  | case5 c cs hescape hstart hc ih =>
      rw [readTemplate, if_neg hc] at h
      · obtain ⟨y, hy, rfl⟩ := Option.map_eq_some_iff.mp h
        rw [readLiteral, if_neg hc, ih hy, Option.map_some]
        exact hescape
      · exact hescape
      · exact hstart

/-! ## String literals -/

/-- A string literal is read up to the quote that was put behind it. -/
theorem readLiteral_literal (s : String) (rest : List Char) :
    readLiteral '"' ((literal s).toList ++ '"' :: rest) = some (s.toList, rest) := by
  rw [literal, String.toList_ofList]
  induction s.toList with
  | nil => rfl
  | cons c cs ih =>
      rw [List.flatMap_cons, List.append_assoc, literalChar]
      split
      next =>
        show (readLiteral '"' (cs.flatMap literalChar ++ '"' :: rest)).map _ = _
        rw [ih, Option.map_some]
      next hc =>
        rw [not_or] at hc
        rw [List.singleton_append, readLiteral]
        · rw [if_neg hc.2, ih, Option.map_some]
        · rintro d ds rfl
          exact absurd rfl hc.1

/-! ## Attribute values -/

theorem readAttr_cons {c : Char} (hc : c ≠ '&') (cs : List Char) :
    readAttr (c :: cs) = c :: readAttr cs := by
  rw [readAttr]
  · rintro ds rfl
    exact absurd rfl hc
  · rintro ds rfl
    exact absurd rfl hc

/-- An attribute value is read as the text that it was made from. -/
theorem readAttr_attr (s : String) : readAttr (attr s).toList = s.toList := by
  rw [attr, String.toList_ofList]
  induction s.toList with
  | nil => rfl
  | cons c cs ih =>
      rw [List.flatMap_cons, attrChar]
      split
      next hc =>
        subst hc
        show '&' :: readAttr (cs.flatMap attrChar) = _
        rw [ih]
      next hamp =>
        split
        next hc =>
          subst hc
          show '"' :: readAttr (cs.flatMap attrChar) = _
          rw [ih]
        next => rw [List.singleton_append, readAttr_cons hamp, ih]

theorem quote_notMem_attr (s : String) : '"' ∉ (attr s).toList := by
  rw [attr, String.toList_ofList]
  intro hmem
  obtain ⟨c, -, hc⟩ := List.mem_flatMap.mp hmem
  unfold attrChar at hc
  split at hc
  next => revert hc; decide
  next =>
    split at hc
    next => revert hc; decide
    next hquote => exact hquote (List.mem_singleton.mp hc).symm

/-- What stands before a character that a stretch does not have begins with the whole stretch. -/
theorem exists_behind {α : Type} {l r pre post : List α} {x : α} (h : l ++ r = pre ++ x :: post)
    (hx : x ∉ l) : ∃ pre', pre = l ++ pre' ∧ r = pre' ++ x :: post := by
  rcases List.append_eq_append_iff.mp h with ⟨pre', hpre, hr⟩ | ⟨behind, hl, hbehind⟩
  · exact ⟨pre', hpre, hr⟩
  · cases behind with
    | nil => exact ⟨[], by simpa using hl.symm, by simpa using hbehind.symm⟩
    | cons y behind =>
        obtain ⟨rfl, -⟩ := List.cons.inj hbehind
        exact absurd (hl ▸ List.mem_append_right pre List.mem_cons_self) hx

/-- Every ampersand in an attribute value begins one of the two entities. -/
theorem entity_of_attr {s : String} {pre post : List Char}
    (h : (attr s).toList = pre ++ '&' :: post) :
    "amp;".toList <+: post ∨ "quot;".toList <+: post := by
  rw [attr, String.toList_ofList] at h
  generalize s.toList = cs at h
  induction cs generalizing pre with
  | nil => simp at h
  | cons c cs ih =>
      rw [List.flatMap_cons, attrChar] at h
      split at h
      next =>
        cases pre with
        | nil =>
            obtain ⟨-, hpost⟩ := List.cons.inj h
            exact .inl ⟨_, hpost⟩
        | cons x pre =>
            obtain ⟨-, hrest⟩ := List.cons.inj h
            change "amp;".toList ++ cs.flatMap attrChar = pre ++ '&' :: post at hrest
            obtain ⟨pre', -, hcs⟩ := exists_behind hrest (by decide)
            exact ih hcs
      next hamp =>
        split at h
        next =>
          cases pre with
          | nil =>
              obtain ⟨-, hpost⟩ := List.cons.inj h
              exact .inr ⟨_, hpost⟩
          | cons x pre =>
              obtain ⟨-, hrest⟩ := List.cons.inj h
              change "quot;".toList ++ cs.flatMap attrChar = pre ++ '&' :: post at hrest
              obtain ⟨pre', -, hcs⟩ := exists_behind hrest (by decide)
              exact ih hcs
        next =>
          obtain ⟨pre', -, hcs⟩ := exists_behind h (by simpa using Ne.symm hamp)
          exact ih hcs

/-! ## Characters that are not escaped -/

/-- The rests of a text from every character on that no backslash makes an ordinary one. -/
def unescaped : List Char → List (List Char)
  | [] => []
  | '\\' :: c :: cs => ('\\' :: c :: cs) :: unescaped cs
  | c :: cs => (c :: cs) :: unescaped cs

theorem unescaped_cons {c : Char} (hc : c ≠ '\\') (cs : List Char) :
    unescaped (c :: cs) = (c :: cs) :: unescaped cs := by
  rw [unescaped]
  rintro d ds rfl
  exact absurd rfl hc

/-- No quote in a string literal ends it. -/
theorem quote_of_unescaped_literal {s : String} {cs : List Char}
    (h : cs ∈ unescaped (literal s).toList) : ¬ ['"'] <+: cs := by
  rw [literal, String.toList_ofList] at h
  generalize s.toList = ds at h
  induction ds with
  | nil => cases h
  | cons d ds ih =>
      rw [List.flatMap_cons, literalChar] at h
      split at h
      next =>
        rcases List.mem_cons.mp h with rfl | h
        · intro hquote
          cases (List.cons_prefix_cons.mp hquote).1
        · exact ih h
      next hplain =>
        rw [not_or] at hplain
        rw [List.singleton_append, unescaped_cons hplain.1] at h
        rcases List.mem_cons.mp h with rfl | h
        · intro hquote
          exact hplain.2 (List.cons_prefix_cons.mp hquote).1.symm
        · exact ih h

/-- No grave accent in a template literal ends it, and no dollar sign before a brace starts an
interpolation. -/
theorem marks_of_unescaped_template {s : String} {cs : List Char}
    (h : cs ∈ unescaped (template s).toList) : ¬ [grave] <+: cs ∧ ¬ ['$', '{'] <+: cs := by
  have hfirst {x : Char} {ds : List Char} (hgrave : grave ≠ x)
      (hdollar : ¬ ('$' = x ∧ ['{'] <+: ds)) :
      ¬ [grave] <+: x :: ds ∧ ¬ ['$', '{'] <+: x :: ds := by
    constructor
    · intro hstart
      exact hgrave (List.cons_prefix_cons.mp hstart).1
    · intro hstart
      exact hdollar (List.cons_prefix_cons.mp hstart)
  rw [template, String.toList_ofList] at h
  generalize s.toList = ds at h
  induction ds using template_induction with
  | nil => cases h
  | interpolation ds ih =>
      change cs ∈ ('\\' :: '$' :: '{' :: templateList ds) ::
        ('{' :: templateList ds) :: unescaped (templateList ds) at h
      rw [List.mem_cons, List.mem_cons] at h
      rcases h with rfl | rfl | h
      · exact hfirst (by decide) (by simp)
      · exact hfirst (by decide) (by simp)
      · exact ih h
  | cons d ds hstart ih =>
      rw [templateList_cons hstart, accentChar] at h
      split at h
      next =>
        rcases List.mem_cons.mp h with rfl | h
        · exact hfirst (by decide) (by simp)
        · exact ih h
      next hplain =>
        rw [not_or] at hplain
        rw [List.singleton_append, unescaped_cons hplain.1] at h
        rcases List.mem_cons.mp h with rfl | h
        · apply hfirst (Ne.symm hplain.2)
          rintro ⟨hd, hbrace⟩
          rw [← List.append_nil (templateList ds)] at hbrace
          exact hstart ⟨hd.symm, brace_of_templateList hbrace (by simp)⟩
        · exact ih h

end PageDesign.Escape
