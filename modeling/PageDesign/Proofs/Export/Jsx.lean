/-
# PageDesign.Proofs.Export.Jsx -- texts between JSX tags are read back

A React component is read from left to right, as far as the tags, the expressions and the texts in
it go.  The reader is a machine with a few modes (`Mode.next`): between tags, in a tag, in a value,
in an expression with some braces open, in a string literal of an expression.  It refuses what it
cannot read, and between tags the two characters that may only end something.  `pieces` are the
texts, expressions and tags that it comes by.

The stretches of a line that begin and end between tags are read one after the other
(`ReadAs.append`), and so are those that do not leave a tag (`Stays.append`).  A special character
of a text is read as an expression that holds this character alone, and every other character as
itself (`readAs_jsxText`).  So no text opens a tag or another expression, whatever groups of its own
it has, and an element around a text is read as two tags with the text between them
(`readAs_element`).
-/
import PageDesign.Export.React
import PageDesign.Proofs.Export.Quotation
import PageDesign.Proofs.Export.Styling

namespace PageDesign.Jsx

open Escape Markup

/-! ## The reader -/

/-- Where a reader is. -/
inductive Mode where
  /-- Between tags. -/
  | content
  /-- In a tag. -/
  | tag
  /-- In a value between double quotes. -/
  | value
  /-- In an expression, within some braces of its own.  It is a value in a tag, or it stands between
  tags. -/
  | code (inTag : Bool) (depth : Nat)
  /-- In a string literal of an expression, up to a quote. -/
  | literal (inTag : Bool) (depth : Nat) (quote : Char)
  /-- Behind a backslash in a string literal. -/
  | escaped (inTag : Bool) (depth : Nat) (quote : Char)
  deriving DecidableEq

/-- Where the reader is behind a character.  Comments, patterns and template literals are not
read. -/
def Mode.next : Mode → Char → Option Mode
  | content, c =>
    if c = '<' then some tag else if c = '{' then some (code false 0)
    else if c = '>' ∨ c = '}' then none else some content
  | tag, c =>
    if c = '>' then some content else if c = '"' then some value
    else if c = '{' then some (code true 0)
    else if c = '<' ∨ c = '}' ∨ c = '\x27' then none else some tag
  | value, c => some (if c = '"' then tag else value)
  | code inTag n, c =>
    if c = '{' then some (code inTag (n + 1))
    else if c = '}' then
      match n with
      | 0 => some (if inTag then tag else content)
      | n + 1 => some (code inTag n)
    else if c = '\x27' ∨ c = '"' then some (literal inTag n c)
    else if c = '/' ∨ c = grave then none else some (code inTag n)
  | literal inTag n quote, c =>
    if c = quote then some (code inTag n) else if c = '\\' then some (escaped inTag n quote)
    else if c = '\n' ∨ c = '\r' then none else some (literal inTag n quote)
  | escaped inTag n quote, _ => some (literal inTag n quote)

/-- What a reader comes by. -/
inductive Piece where
  /-- A character of a text. -/
  | char (c : Char)
  /-- An expression between tags. -/
  | expression (code : List Char)
  /-- A tag. -/
  | tag (inside : List Char)

/-- The piece that begins where the reader comes into a mode. -/
def Mode.piece : Mode → List Char → Piece
  | tag => .tag
  | _ => .expression

/-- What is read from some characters: the rest of the tag or of the expression in which they begin,
and the pieces behind it. -/
def read : Mode → List Char → Option (List Char × List Piece)
  | m, [] => if m = .content then some ([], []) else none
  | m, c :: cs =>
    (m.next c).bind fun n => (read n cs).map fun (rest, ps) =>
      match m, n with
      | .content, .content => ([], .char c :: ps)
      | .content, n => ([], n.piece rest :: ps)
      | _, .content => ([], ps)
      | _, _ => (c :: rest, ps)

/-- The pieces of some characters that begin between tags. -/
def pieces (cs : List Char) : Option (List Piece) := (read .content cs).map (·.2)

namespace Piece

/-- A piece as it is written. -/
def written : Piece → List Char
  | char c => [c]
  | expression code => '{' :: code ++ ['}']
  | tag inside => '<' :: inside ++ ['>']

/-- What a piece shows.  An expression that is a string literal of one character shows this
character. -/
def shown : Piece → List Char
  | char c => [c]
  | expression ['\x27', c, '\x27'] => [c]
  | _ => []

/-- The inside of a tag. -/
def inside? : Piece → Option (List Char)
  | tag inside => some inside
  | _ => none

/-- The piece for a character of a text. -/
def ofChar (c : Char) : Piece :=
  if isJsxSpecial c then expression ['\x27', c, '\x27'] else char c

theorem ofChar_injective : Function.Injective ofChar := by
  intro c d h
  unfold ofChar at h
  split at h <;> split at h
  · simpa using h
  · cases h
  · cases h
  · simpa using h

theorem written_ofChar (c : Char) : (ofChar c).written = jsxChar c := by
  unfold ofChar jsxChar
  split <;> rfl

theorem shown_ofChar (c : Char) : (ofChar c).shown = [c] := by
  unfold ofChar
  split <;> rfl

end Piece

/-! ## One character

Each character stays in a tag or in an expression, or it opens one, or it ends one, or it stands
between tags. -/

theorem read_inside {l m : Mode} {c : Char} (hl : l ≠ .content) (hm : m ≠ .content)
    (hnext : l.next c = some m) (cs : List Char) :
    read l (c :: cs) = (read m cs).map fun r => (c :: r.1, r.2) := by
  rw [read, hnext, Option.bind_some]
  congr 1
  funext ⟨inside, ps⟩
  dsimp only
  split
  next => exact absurd rfl hl
  next => exact absurd rfl hl
  next => exact absurd rfl hm
  next => rfl

theorem pieces_opening {m : Mode} {c : Char} (hm : m ≠ .content)
    (hnext : Mode.content.next c = some m) (cs : List Char) :
    pieces (c :: cs) = (read m cs).map fun r => m.piece r.1 :: r.2 := by
  rw [pieces, read, hnext, Option.bind_some, Option.map_map]
  congr 1
  funext ⟨inside, ps⟩
  dsimp only [Function.comp_apply]
  split
  next => exact absurd rfl hm
  next => rfl
  next => exact absurd rfl hm
  next h _ => exact absurd rfl h

theorem read_closing {m : Mode} {c : Char} (hm : m ≠ .content) (hnext : m.next c = some .content)
    (cs : List Char) : read m (c :: cs) = (pieces cs).map fun ps => ([], ps) := by
  rw [pieces, read, hnext, Option.bind_some, Option.map_map]
  congr 1
  funext ⟨inside, ps⟩
  dsimp only
  split
  next => exact absurd rfl hm
  next => exact absurd rfl hm
  next => rfl
  next h _ => exact absurd rfl h

theorem pieces_char {c : Char} (hnext : Mode.content.next c = some .content) (cs : List Char) :
    pieces (c :: cs) = (pieces cs).map (.char c :: ·) := by
  rw [pieces, read, hnext, Option.bind_some, Option.map_map, pieces, Option.map_map]
  rfl

/-! ## Stretches in a tag -/

/-- A stretch leads from one place in a tag or in an expression to another. -/
def Stays (m : Mode) (cs : List Char) (n : Mode) : Prop :=
  ∀ rest, read m (cs ++ rest) = (read n rest).map fun r => (cs ++ r.1, r.2)

theorem stays_nil (m : Mode) : Stays m [] m := by
  intro rest
  exact (Option.map_id' (x := read m rest)).symm

theorem Stays.append {l m n : Mode} {cs ds : List Char} (h : Stays l cs m) (h' : Stays m ds n) :
    Stays l (cs ++ ds) n := by
  intro rest
  rw [List.append_assoc, h, h', Option.map_map]
  simp only [Function.comp_def, List.append_assoc]

theorem Stays.cons {l m n : Mode} {c : Char} {cs : List Char} (hl : l ≠ .content)
    (hm : m ≠ .content) (hnext : l.next c = some m) (h : Stays m cs n) : Stays l (c :: cs) n := by
  intro rest
  rw [List.cons_append, read_inside hl hm hnext, h, Option.map_map]
  rfl

/-- Characters that do not change the mode. -/
def Mode.Keeps (m : Mode) (cs : List Char) : Prop := ∀ c ∈ cs, m.next c = some m

instance (m : Mode) (cs : List Char) : Decidable (m.Keeps cs) := List.decidableBAll _ cs

theorem Mode.Keeps.stays {m : Mode} (hm : m ≠ .content) {cs : List Char} (h : m.Keeps cs) :
    Stays m cs m := by
  induction cs with
  | nil => exact stays_nil m
  | cons c cs ih =>
      obtain ⟨hc, hcs⟩ := List.forall_mem_cons.mp h
      exact .cons hm hm hc (ih hcs)

/-! ## Stretches between tags -/

/-- A stretch that begins and ends between tags is read as some pieces. -/
def ReadAs (cs : List Char) (ps : List Piece) : Prop :=
  ∀ rest, pieces (cs ++ rest) = (pieces rest).map (ps ++ ·)

theorem readAs_nil : ReadAs [] [] := by
  intro rest
  exact (Option.map_id' (x := pieces rest)).symm

theorem ReadAs.append {cs ds : List Char} {ps qs : List Piece} (h : ReadAs cs ps)
    (h' : ReadAs ds qs) : ReadAs (cs ++ ds) (ps ++ qs) := by
  intro rest
  rw [List.append_assoc, h, h', Option.map_map]
  simp only [Function.comp_def, List.append_assoc]

theorem ReadAs.pieces {cs : List Char} {ps : List Piece} (h : ReadAs cs ps) :
    pieces cs = some ps := by
  have hread := h []
  rw [List.append_nil] at hread
  rw [hread]
  show some (ps ++ []) = some ps
  rw [List.append_nil]

/-- What is enclosed by two characters is a piece. -/
theorem readAs_enclosed {m : Mode} (hm : m ≠ .content) {first last : Char} {inside : List Char}
    (hfirst : Mode.content.next first = some m) (hlast : m.next last = some .content)
    (h : Stays m inside m) : ReadAs (first :: inside ++ [last]) [m.piece inside] := by
  intro rest
  rw [List.append_assoc, List.cons_append, List.singleton_append, pieces_opening hm hfirst, h,
    read_closing hm hlast, Option.map_map, Option.map_map]
  simp only [Function.comp_def, List.append_nil, List.singleton_append]

theorem readAs_tag {inside : List Char} (h : Stays .tag inside .tag) :
    ReadAs ('<' :: inside ++ ['>']) [.tag inside] :=
  readAs_enclosed (by decide) rfl rfl h

/-- A character that is not special is read as itself. -/
theorem readAs_char {c : Char} (h : isJsxSpecial c = false) : ReadAs [c] [.char c] := by
  simp only [isJsxSpecial, Bool.or_eq_false_iff, decide_eq_false_iff_not] at h
  obtain ⟨⟨⟨hopen, hclose⟩, hless⟩, hgreater⟩ := h
  have hnext : Mode.content.next c = some .content := by
    rw [Mode.next, if_neg hless, if_neg hopen, if_neg (by simp [hclose, hgreater])]
  intro rest
  rw [List.singleton_append, pieces_char hnext]
  rfl

/-- A group is read as an expression that holds its character. -/
theorem readAs_group {c : Char} (h : isJsxSpecial c = true) :
    ReadAs ['{', '\x27', c, '\x27', '}'] [.expression ['\x27', c, '\x27']] := by
  have hinside : Stays (.code false 0) ['\x27', c, '\x27'] (.code false 0) := by
    have hquote : (Mode.code false 0).next '\x27' = some (.literal false 0 '\x27') := by decide
    have hend : (Mode.literal false 0 '\x27').next '\x27' = some (.code false 0) := by decide
    have hc : (Mode.literal false 0 '\x27').next c = some (.literal false 0 '\x27') := by
      simp only [isJsxSpecial, Bool.or_eq_true, decide_eq_true_iff] at h
      rcases h with ((rfl | rfl) | rfl) | rfl <;> decide
    exact .cons (by decide) (by decide) hquote (.cons (by decide) (by decide) hc
      (.cons (by decide) (by decide) hend (stays_nil _)))
  exact readAs_enclosed (by decide) rfl rfl hinside

/-- A text between tags is read character by character. -/
theorem readAs_flatMap_jsxChar (cs : List Char) :
    ReadAs (cs.flatMap jsxChar) (cs.map Piece.ofChar) := by
  induction cs with
  | nil => exact readAs_nil
  | cons c cs ih =>
      have hc : ReadAs (jsxChar c) [Piece.ofChar c] := by
        unfold jsxChar Piece.ofChar
        split
        next h => exact readAs_group h
        next h => exact readAs_char (by simpa using h)
      exact hc.append ih

theorem readAs_jsxText (s : String) :
    ReadAs (jsxText s).toList (s.toList.map Piece.ofChar) := by
  rw [jsxText, String.toList_ofList]
  exact readAs_flatMap_jsxChar s.toList

theorem jsxText_injective : Function.Injective jsxText := by
  intro s t h
  have hs := (readAs_jsxText s).pieces
  rw [h, (readAs_jsxText t).pieces, Option.some.injEq] at hs
  exact (String.toList_injective (List.map_injective_iff.mpr Piece.ofChar_injective hs)).symm

/-- A text is what its groups and its other characters show. -/
theorem readJsx_jsxText (s : String) : readJsx (jsxText s).toList = s.toList := by
  rw [jsxText, String.toList_ofList]
  induction s.toList with
  | nil => rfl
  | cons c cs ih =>
      rw [List.flatMap_cons, jsxChar]
      split
      next =>
        show c :: readJsx (cs.flatMap jsxChar) = _
        rw [ih]
      next h =>
        rw [List.singleton_append, readJsx, ih]
        rintro d ds rfl
        exact absurd rfl h

/-! ## Tags -/

/-- A name, or what else has neither quotes nor brackets nor braces in a tag. -/
abbrev IsPlain (cs : List Char) : Prop := Mode.tag.Keeps cs

theorem IsPlain.stays {cs : List Char} (h : IsPlain cs) : Stays .tag cs .tag :=
  Mode.Keeps.stays (by decide) h

/-- An expression that is the value of an attribute ends at the brace that was put behind it. -/
def Closed (code : String) : Prop := Stays (.code true 0) code.toList (.code true 0)

/-- An attribute does not end the tag in which it stands. -/
def Fits (a : Attribute) : Prop := Stays .tag a.text.toList .tag

theorem fits_flag {name : String} (h : IsPlain name.toList) : Fits (.flag name) := h.stays

theorem fits_quoted {name value : String} (hname : IsPlain name.toList)
    (hvalue : '"' ∉ value.toList) : Fits (.quoted name value) := by
  have hinside : Stays .value value.toList .value := by
    refine Mode.Keeps.stays (by decide) fun c hc => ?_
    rw [Mode.next, if_neg (ne_of_mem_of_not_mem hc hvalue)]
  have hopen : Stays .tag ['=', '"'] .value :=
    .cons (by decide) (by decide) rfl (.cons (by decide) (by decide) rfl (stays_nil _))
  have hclose : Stays .value ['"'] .tag := .cons (by decide) (by decide) rfl (stays_nil _)
  have hwhole := ((hname.stays.append hopen).append hinside).append hclose
  simpa [Fits, Attribute.text] using hwhole

theorem fits_escaped {name : String} (hname : IsPlain name.toList) (value : String) :
    Fits (.escaped name value) :=
  fits_quoted hname (quote_notMem_attr value)

theorem fits_braced {name code : String} (hname : IsPlain name.toList) (h : Closed code) :
    Fits (.bare name (React.braced code)) := by
  have hopen : Stays .tag ['=', '{'] (.code true 0) :=
    .cons (by decide) (by decide) rfl (.cons (by decide) (by decide) rfl (stays_nil _))
  have hclose : Stays (.code true 0) ['}'] .tag :=
    .cons (by decide) (by decide) rfl (stays_nil _)
  have hwhole := ((hname.stays.append hopen).append h).append hclose
  simpa [Fits, Attribute.text, React.braced] using hwhole

theorem stays_inside {name : String} {as : List Attribute} (hname : IsPlain name.toList)
    (has : ∀ a ∈ as, Fits a) : Stays .tag (inside name as).toList .tag := by
  rw [toList_inside]
  refine hname.stays.append ?_
  induction as with
  | nil => exact stays_nil _
  | cons a as ih =>
      obtain ⟨ha, has⟩ := List.forall_mem_cons.mp has
      exact (Stays.cons (by decide) (by decide) rfl ha).append (ih has)

/-- An element that shows a text is read as its two tags and the characters between them. -/
theorem readAs_element {name : String} {as : List Attribute} (hname : IsPlain name.toList)
    (has : ∀ a ∈ as, Fits a) (s : String) :
    ReadAs (element name as (jsxText s)).toList
      (.tag (inside name as).toList ::
        (s.toList.map Piece.ofChar ++ [.tag ('/' :: name.toList)])) := by
  have hend : IsPlain ('/' :: name.toList) := List.forall_mem_cons.mpr ⟨rfl, hname⟩
  have hwhole := ((readAs_tag (stays_inside hname has)).append (readAs_jsxText s)).append
    (readAs_tag hend.stays)
  simpa [element, tag, endTag] using hwhole

/-! ## Attributes -/

theorem closed_truth (b : Bool) : Closed (truth b) := by
  cases b <;> exact Mode.Keeps.stays (by decide) (by decide)

theorem fits_className {s : String} (h : '"' ∉ s.toList) : Fits (React.className s) :=
  fits_quoted (by decide) h

theorem fits_state {name : String} (hname : IsPlain name.toList) (b : Bool) :
    Fits (React.state name b) :=
  fits_braced hname (closed_truth b)

theorem fits_on {event : String} (hevent : IsPlain ("on" ++ event).toList) {o : Option String}
    (h : ∀ code ∈ o, Closed code) : ∀ a ∈ React.on event o, Fits a := by
  intro a ha
  cases o with
  | none => cases ha
  | some code =>
      rw [React.on, given] at ha
      split at ha
      · cases ha
      · rw [List.mem_singleton.mp ha]
        exact fits_braced hevent (h code rfl)

/-- What plays an animation stands in a string literal of a style object. -/
theorem closed_shorthand (a : Animation) :
    Closed (React.braced (" animation: '" ++ a.shorthand ++ "' ")) := by
  have hinside : Stays (.literal true 1 '\x27') a.shorthand.toList (.literal true 1 '\x27') := by
    refine Mode.Keeps.stays (by decide) fun c hc => ?_
    have hne {d : Char} (hd : d ∉ a.shorthand.toList) : c ≠ d := ne_of_mem_of_not_mem hc hd
    rw [Mode.next, if_neg (hne (Style.notMem_shorthand a (by decide) (by decide))),
      if_neg (hne (Style.notMem_shorthand a (by decide) (by decide))), if_neg]
    rw [not_or]
    exact ⟨hne (Style.notMem_shorthand a (by decide) (by decide)),
      hne (Style.notMem_shorthand a (by decide) (by decide))⟩
  have hkey : Stays (.code true 1) " animation: ".toList (.code true 1) :=
    Mode.Keeps.stays (by decide) (by decide)
  have hopen : Stays (.code true 1) ['\x27'] (.literal true 1 '\x27') :=
    .cons (by decide) (by decide) rfl (stays_nil _)
  have hclose : Stays (.literal true 1 '\x27') ['\x27', ' ', '}'] (.code true 0) :=
    .cons (by decide) (by decide) rfl (.cons (by decide) (by decide) rfl
      (.cons (by decide) (by decide) rfl (stays_nil _)))
  have hwhole := ((hkey.append hopen).append hinside).append hclose
  have hbraces : Stays (.code true 0) _ (.code true 0) :=
    .cons (by decide) (by decide) (c := '{') rfl hwhole
  simpa [Closed, React.braced] using hbraces

theorem fits_styled (a : Option Animation) :
    ∀ b ∈ React.styled (Style.animation a), Fits b := by
  cases a with
  | none => simp [Style.animation, React.styled]
  | some a =>
      rw [Style.animation]
      split
      next => simp [React.styled]
      next hmovement =>
        have hplain : Style.Plain ⟨"animation", a.shorthand⟩ :=
          Style.plain_words (by decide) (Style.words_shorthand hmovement)
        have hentry : React.entry ⟨"animation", a.shorthand⟩ =
            "animation: '" ++ a.shorthand ++ "'" := by
          apply String.toList_injective
          have hcamel : (React.camel "animation").toList = "animation".toList := by decide
          simp [Style.toList_entry hplain, hcamel]
        intro b hb
        rw [React.styled, if_neg (by simp), List.mem_singleton] at hb
        have hobject : React.styleObject [⟨"animation", a.shorthand⟩] =
            React.braced (React.braced (" animation: '" ++ a.shorthand ++ "' ")) := by
          apply String.toList_injective
          simp [React.styleObject, React.braced, hentry]
        rw [hb, hobject]
        exact fits_braced (by decide) (closed_shorthand a)

end PageDesign.Jsx
