/-
# PageDesign.Proofs.Export.Quotation -- quoted texts are read from the lines they stand on

A line of markup is read from left to right without knowing what was written: outside of quotes the
last word is kept, and a quote after it begins a text that goes on to the next quote that counts
(`readOutside`, `readInside`).  What is read from a line is the texts on it, each with the word in
front of it, and no text can break out of its quotes, since an escaped text is read up to the quote
that was put behind it (`Encodes`).

Stretches of a line are read one after the other (`Carries.append`), so a tag is read attribute by
attribute.  What the first attributes carry can be looked up on the line, by the word in front of
it, whatever comes behind them (`recovers_of_first`).
-/
import Mathlib.Data.List.Nodup
import PageDesign.Export.Markup
import PageDesign.Proofs.Export.Escape

namespace PageDesign.Markup

open Escape

/-! ## Reading a line -/

/-- Ways to write a text between quotes: as the value of an attribute, or as a string literal. -/
inductive Quoting where
  | value
  | literal
  deriving DecidableEq

mutual

/-- The quoted texts on the rest of a line, each with the word in front of it.  The rest begins
outside of quotes, behind some characters of a word. -/
def readOutside (q : Quoting) (word : List Char) : List Char → List (String × String)
  | [] => []
  | c :: cs =>
    if c = '"' then readInside q (String.ofList word) [] cs
    else readOutside q (if c = ' ' then [] else word ++ [c]) cs

/-- The quoted texts on the rest of a line that begins inside of quotes, behind a word and some
characters of a text.  In a string literal a backslash makes the next character an ordinary one; in
an attribute value the two entities are read once the value has ended. -/
def readInside (q : Quoting) (word : String) (text : List Char) :
    List Char → List (String × String)
  | [] => []
  | '\\' :: c :: cs =>
    if q = .literal then readInside q word (text ++ [c]) cs
    else readInside q word (text ++ ['\\']) (c :: cs)
  | c :: cs =>
    if c = '"' then
      (word, String.ofList (if q = .value then readAttr text else text)) :: readOutside q [] cs
    else readInside q word (text ++ [c]) cs

end

/-- The quoted texts on a line, each with the word in front of it. -/
def readLine (q : Quoting) (line : String) : List (String × String) := readOutside q [] line.toList

/-! ## Texts between quotes -/

/-- What is read from some characters, up to the quote behind them, is a text. -/
def Encodes (q : Quoting) (cs : List Char) (s : String) : Prop :=
  ∀ word rest, readInside q word [] (cs ++ '"' :: rest) = (word, s) :: readOutside q [] rest

theorem readInside_value_cons {c : Char} (hc : c ≠ '"') (word : String)
    (text cs : List Char) : readInside .value word text (c :: cs) =
      readInside .value word (text ++ [c]) cs := by
  by_cases hbackslash : c = '\\'
  · subst hbackslash
    cases cs with
    | nil => rfl
    | cons d ds => rw [readInside, if_neg (by decide)]
  · rw [readInside, if_neg hc]
    rintro d ds rfl
    exact absurd rfl hbackslash

theorem readInside_value {cs : List Char} (hcs : '"' ∉ cs) (word : String)
    (text rest : List Char) : readInside .value word text (cs ++ '"' :: rest) =
      (word, String.ofList (readAttr (text ++ cs))) :: readOutside .value [] rest := by
  induction cs generalizing text with
  | nil =>
      rw [List.append_nil]
      rfl
  | cons c cs ih =>
      rw [List.mem_cons, not_or] at hcs
      rw [List.cons_append, readInside_value_cons (Ne.symm hcs.1), ih hcs.2, List.append_assoc,
        List.singleton_append]

theorem encodes_attr (s : String) : Encodes .value (attr s).toList s := by
  intro word rest
  rw [readInside_value (quote_notMem_attr s), List.nil_append, readAttr_attr,
    String.ofList_toList]

theorem readAttr_of_notMem {cs : List Char} (h : '&' ∉ cs) : readAttr cs = cs := by
  induction cs with
  | nil => rfl
  | cons c cs ih =>
      rw [List.mem_cons, not_or] at h
      rw [readAttr_cons (Ne.symm h.1), ih h.2]

/-- A value without quotes and ampersands is read as it is. -/
theorem encodes_plain {s : String} (hquote : '"' ∉ s.toList) (hamp : '&' ∉ s.toList) :
    Encodes .value s.toList s := by
  intro word rest
  rw [readInside_value hquote, List.nil_append, readAttr_of_notMem hamp, String.ofList_toList]

theorem readInside_literal (cs : List Char) (word : String) (text rest : List Char) :
    readInside .literal word text (cs.flatMap literalChar ++ '"' :: rest) =
      (word, String.ofList (text ++ cs)) :: readOutside .literal [] rest := by
  induction cs generalizing text with
  | nil =>
      rw [List.append_nil]
      rfl
  | cons c cs ih =>
      have hstep : readInside .literal word text
          (literalChar c ++ (cs.flatMap literalChar ++ '"' :: rest)) =
            readInside .literal word (text ++ [c]) (cs.flatMap literalChar ++ '"' :: rest) := by
        rw [literalChar]
        split
        next => rfl
        next hc =>
          rw [not_or] at hc
          rw [List.singleton_append, readInside, if_neg hc.2]
          rintro d ds rfl
          exact absurd rfl hc.1
      rw [List.flatMap_cons, List.append_assoc, hstep, ih, List.append_assoc, List.singleton_append]

theorem encodes_literal (s : String) : Encodes .literal (literal s).toList s := by
  intro word rest
  rw [literal, String.toList_ofList, readInside_literal, List.nil_append, String.ofList_toList]

/-! ## Stretches of a line -/

/-- A stretch of a line is read from outside of quotes to outside of quotes.  `word` is the last
word in front of it, `ts` are the quoted texts on it, and `last` is the last word on it. -/
def Reads (q : Quoting) (word cs : List Char) (ts : List (String × String)) (last : List Char) :
    Prop :=
  ∀ rest, readOutside q word (cs ++ rest) = ts ++ readOutside q last rest

theorem Reads.append {q : Quoting} {u v w cs ds : List Char} {ts us : List (String × String)}
    (h : Reads q u cs ts v) (h' : Reads q v ds us w) : Reads q u (cs ++ ds) (ts ++ us) w := by
  intro rest
  rw [List.append_assoc, h, h', List.append_assoc]

theorem reads_nil (q : Quoting) (word : List Char) : Reads q word [] [] word := fun _ => rfl

/-- A blank ends a word. -/
theorem reads_blank (q : Quoting) (word : List Char) : Reads q word [' '] [] [] := fun _ => rfl

/-- A word, or a part of one, has neither quotes nor blanks. -/
def IsWord (cs : List Char) : Prop := ∀ c ∈ cs, c ≠ '"' ∧ c ≠ ' '

instance (cs : List Char) : Decidable (IsWord cs) := List.decidableBAll _ cs

theorem IsWord.append {cs ds : List Char} (h : IsWord cs) (h' : IsWord ds) : IsWord (cs ++ ds) :=
  List.forall_mem_append.mpr ⟨h, h'⟩

theorem reads_word (q : Quoting) (word : List Char) {cs : List Char} (h : IsWord cs) :
    Reads q word cs [] (word ++ cs) := by
  intro rest
  induction cs generalizing word with
  | nil =>
      rw [List.append_nil]
      rfl
  | cons c cs ih =>
      obtain ⟨hquote, hblank⟩ := h c List.mem_cons_self
      rw [List.cons_append, readOutside, if_neg hquote, if_neg hblank,
        ih (word ++ [c]) fun d hd => h d (List.mem_cons_of_mem _ hd), List.append_assoc,
        List.singleton_append]

/-- A stretch without quotes has no quoted texts. -/
theorem exists_reads_of_notMem (q : Quoting) (word : List Char) {cs : List Char}
    (h : '"' ∉ cs) : ∃ last, Reads q word cs [] last := by
  induction cs generalizing word with
  | nil => exact ⟨word, reads_nil q word⟩
  | cons c cs ih =>
      rw [List.mem_cons, not_or] at h
      obtain ⟨last, hlast⟩ := ih (if c = ' ' then [] else word ++ [c]) h.2
      refine ⟨last, fun rest => ?_⟩
      rw [List.cons_append, readOutside, if_neg (Ne.symm h.1), hlast]

/-- A text between quotes is read with the word in front of it. -/
theorem Encodes.reads {q : Quoting} {cs : List Char} {s : String} (h : Encodes q cs s)
    (word : List Char) : Reads q word ('"' :: (cs ++ ['"'])) [(String.ofList word, s)] [] := by
  intro rest
  rw [List.cons_append, readOutside, if_pos rfl, List.append_assoc, List.singleton_append, h]
  rfl

/-- Whatever word is in front of a stretch of a line, some quoted texts are read from it. -/
def Carries (q : Quoting) (cs : List Char) (ts : List (String × String)) : Prop :=
  ∀ word, ∃ last, Reads q word cs ts last

theorem Carries.append {q : Quoting} {cs ds : List Char} {ts us : List (String × String)}
    (h : Carries q cs ts) (h' : Carries q ds us) : Carries q (cs ++ ds) (ts ++ us) := by
  intro word
  obtain ⟨last, hlast⟩ := h word
  obtain ⟨last', hlast'⟩ := h' last
  exact ⟨last', hlast.append hlast'⟩

theorem carries_of_notMem (q : Quoting) {cs : List Char} (h : '"' ∉ cs) : Carries q cs [] :=
  fun word => exists_reads_of_notMem q word h

/-- A blank, a name and a text between quotes: the text is read with the name. -/
theorem reads_assigned {q : Quoting} {name s : String} {cs : List Char}
    (hname : IsWord name.toList) (h : Encodes q cs s) (word : List Char) :
    Reads q word (' ' :: (name.toList ++ '=' :: '"' :: (cs ++ ['"']))) [(name ++ "=", s)] [] := by
  have hword : IsWord (name.toList ++ ['=']) := hname.append (by decide)
  have hreads := (reads_blank q word).append ((reads_word q [] hword).append (h.reads _))
  have hlabel : String.ofList ([] ++ (name.toList ++ ['='])) = name ++ "=" := by simp
  rw [hlabel] at hreads
  simpa using hreads

/-! ## Attributes -/

/-- Attributes in a tag. -/
def written (as : List Attribute) : List Char := as.flatMap fun a => ' ' :: a.text.toList

theorem written_append (as bs : List Attribute) : written (as ++ bs) = written as ++ written bs :=
  List.flatMap_append

theorem carries_written_append {q : Quoting} {as bs : List Attribute}
    {ts us : List (String × String)} (h : Carries q (written as) ts)
    (h' : Carries q (written bs) us) : Carries q (written (as ++ bs)) (ts ++ us) := by
  rw [written_append]
  exact h.append h'

theorem carries_written_cons {q : Quoting} {a : Attribute} {as : List Attribute}
    {t : String × String} {us : List (String × String)} (h : Carries q (written [a]) [t])
    (h' : Carries q (written as) us) : Carries q (written (a :: as)) (t :: us) :=
  carries_written_append h h'

theorem toList_inside (name : String) (as : List Attribute) :
    (inside name as).toList = name.toList ++ written as := by
  rw [inside, String.toList_append, String.toList_join, List.flatMap_map]
  simp [written]

theorem toList_tag (name : String) (as : List Attribute) :
    (tag name as).toList = '<' :: name.toList ++ (written as ++ ['>']) := by
  simp [tag, toList_inside]

theorem toList_emptyTag (name : String) (as : List Attribute) :
    (emptyTag name as).toList = '<' :: name.toList ++ (written as ++ " />".toList) := by
  simp [emptyTag, toList_inside]

theorem toList_element (name : String) (as : List Attribute) (content : String) :
    (element name as content).toList =
      '<' :: name.toList ++ (written as ++ '>' :: (content.toList ++ (endTag name).toList)) := by
  simp [element, toList_tag]

theorem carries_escaped {name : String} (hname : IsWord name.toList) (s : String) :
    Carries .value (written [.escaped name s]) [(name ++ "=", s)] := by
  intro word
  refine ⟨[], ?_⟩
  simpa [written, Attribute.text] using reads_assigned hname (encodes_attr s) word

theorem carries_quoted {name s : String} (hname : IsWord name.toList) (hquote : '"' ∉ s.toList)
    (hamp : '&' ∉ s.toList) :
    Carries .value (written [.quoted name s]) [(name ++ "=", s)] := by
  intro word
  refine ⟨[], ?_⟩
  simpa [written, Attribute.text] using reads_assigned hname (encodes_plain hquote hamp) word

theorem carries_flagIf (q : Quoting) {name : String} (h : '"' ∉ name.toList) (holds : Bool) :
    Carries q (written (flagIf name holds)) [] := by
  cases holds with
  | false => exact carries_of_notMem q List.not_mem_nil
  | true =>
      refine carries_of_notMem q ?_
      simpa [flagIf, written, Attribute.text] using h

/-- A text that is given and not empty, as it is written, behind a word. -/
def handed (label : String) (write : String → String) : Option String → List (String × String)
  | some s => if s.isEmpty then [] else [(label, write s)]
  | none => []

theorem carries_given {q : Quoting} {attr : String → Attribute} {label : String}
    {write : String → String} (h : ∀ s, Carries q (written [attr s]) [(label, write s)])
    (o : Option String) : Carries q (written (given attr o)) (handed label write o) := by
  cases o with
  | none => exact carries_of_notMem q List.not_mem_nil
  | some s =>
      rw [given, handed]
      split
      next => exact carries_of_notMem q List.not_mem_nil
      next => exact h s

/-- The words in front of some texts are among given ones, in their order. -/
def Labelled (ts : List (String × String)) (ls : List String) : Prop := (ts.map (·.1)).Sublist ls

theorem Labelled.append {ts us : List (String × String)} {ls ms : List String}
    (h : Labelled ts ls) (h' : Labelled us ms) : Labelled (ts ++ us) (ls ++ ms) := by
  unfold Labelled
  rw [List.map_append]
  exact List.Sublist.append h h'

theorem Labelled.cons {ts : List (String × String)} {ls : List String} (h : Labelled ts ls)
    (label s : String) : Labelled ((label, s) :: ts) (label :: ls) :=
  List.Sublist.cons_cons label h

theorem labelled_self (ts : List (String × String)) : Labelled ts (ts.map (·.1)) :=
  List.Sublist.refl _

theorem labelled_handed (label : String) (write : String → String) (o : Option String) :
    Labelled (handed label write o) [label] := by
  cases o with
  | none => exact List.nil_sublist _
  | some s =>
      rw [handed]
      split
      next => exact List.nil_sublist _
      next => exact List.Sublist.refl _

/-! ## Lines -/

/-- Texts can be looked up on a line by the words in front of them, however far it is set in. -/
def Recovers (q : Quoting) (line : Line) (ts : List (String × String)) : Prop :=
  ∀ n width, ∀ t ∈ ts, (readLine q ((line.shift n).render width)).lookup t.1 = some t.2

theorem lookup_of_mem {l ts : List (String × String)} (h : ts <+: l)
    (hnodup : (ts.map (·.1)).Nodup) {t : String × String} (ht : t ∈ ts) :
    l.lookup t.1 = some t.2 := by
  obtain ⟨us, rfl⟩ := h
  obtain ⟨before, behind, rfl⟩ := List.append_of_mem ht
  rw [List.map_append, List.map_cons] at hnodup
  obtain ⟨-, -, hdisjoint⟩ := List.nodup_append'.mp hnodup
  refine List.lookup_eq_some_iff.mpr ⟨before, behind ++ us, by simp, fun p hp => ?_⟩
  rw [bne_iff_ne]
  intro heq
  exact hdisjoint (List.mem_map.mpr ⟨p, hp, heq.symm⟩) List.mem_cons_self

/-- What is carried by a stretch of a line that begins in front of the first quote can be looked up
on the line, if no two texts have the same word in front of them. -/
theorem recovers_of_carries {q : Quoting} {line : Line} {before cs behind : List Char}
    {ts us : List (String × String)} {ls : List String}
    (hline : line.text.toList = before ++ (cs ++ behind)) (hbefore : '"' ∉ before)
    (hcs : Carries q cs ts) (hts : Labelled ts ls) (hls : ls.Nodup) (hus : us ⊆ ts) :
    Recovers q line us := by
  intro n width u hu
  let margin : List Char := List.replicate (width * (line.level + n)) ' '
  have hmargin : '"' ∉ margin ++ before := by
    rw [List.mem_append, not_or]
    refine ⟨fun hmem => ?_, hbefore⟩
    obtain ⟨-, hblank⟩ := List.mem_replicate.mp hmem
    cases hblank
  have hrender : ((line.shift n).render width).toList =
      margin ++ before ++ (cs ++ (behind ++ ['\n'])) := by
    simp [Line.render, Line.shift, spaces, hline, margin]
  obtain ⟨word, hword⟩ := exists_reads_of_notMem q [] hmargin
  obtain ⟨last, hlast⟩ := hcs word
  refine lookup_of_mem ?_ (hts.nodup hls) (hus hu)
  rw [readLine, hrender, hword, hlast, List.nil_append]
  exact List.prefix_append _ _

theorem recovers_nil (q : Quoting) (line : Line) : Recovers q line [] := by
  rintro n width t ht
  cases ht

/-- The first attributes of a tag carry the texts that can be looked up on its line. -/
theorem recovers_of_first {q : Quoting} {line : Line} {name : String} {as bs : List Attribute}
    {behind : List Char} {ts us : List (String × String)} {ls : List String}
    (hline : line.text.toList = '<' :: name.toList ++ (written (as ++ bs) ++ behind))
    (hname : '"' ∉ name.toList) (has : Carries q (written as) ts) (hts : Labelled ts ls)
    (hls : ls.Nodup) (hus : us ⊆ ts) : Recovers q line us := by
  rw [written_append, List.append_assoc] at hline
  refine recovers_of_carries hline ?_ has hts hls hus
  rw [List.mem_cons, not_or]
  exact ⟨by decide, hname⟩

/-- The attributes and the content of an element carry the texts that can be looked up on its
line. -/
theorem recovers_of_element {q : Quoting} {line : Line} {name content : String}
    {as : List Attribute} {ts us : List (String × String)} {ls : List String}
    (hline : line.text = element name as content) (hname : '"' ∉ name.toList)
    (hcontent : Carries q (written as ++ '>' :: content.toList) ts) (hts : Labelled ts ls)
    (hls : ls.Nodup) (hus : us ⊆ ts) : Recovers q line us := by
  have htext : line.text.toList = '<' :: name.toList ++
      ((written as ++ '>' :: content.toList) ++ (endTag name).toList) := by
    rw [hline, toList_element]
    simp
  refine recovers_of_carries htext ?_ hcontent hts hls hus
  rw [List.mem_cons, not_or]
  exact ⟨by decide, hname⟩

end PageDesign.Markup
