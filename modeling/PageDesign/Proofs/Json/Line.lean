/-
# PageDesign.Proofs.Json.Line -- values on one line

A value that is written without lines of its own has no control character in its text, whatever
its strings hold: they are the characters for which texts have escapes.  So there is no line break
in it and nothing that separates fields (`uncontrolled_dump`).
-/
import PageDesign.Proofs.Json.Whole
import PageDesign.Proofs.Number.Characters

namespace PageDesign

/-- Characters none of which is a control character below the blank. -/
def Uncontrolled (cs : List Char) : Prop := ∀ c ∈ cs, 32 ≤ c.toNat

instance (cs : List Char) : Decidable (Uncontrolled cs) := List.decidableBAll _ cs

theorem Uncontrolled.append {cs ds : List Char} (hcs : Uncontrolled cs) (hds : Uncontrolled ds) :
    Uncontrolled (cs ++ ds) :=
  List.forall_mem_append.mpr ⟨hcs, hds⟩

theorem AreNumerals.uncontrolled {cs : List Char} (h : AreNumerals cs) : Uncontrolled cs := by
  intro c hc
  rcases h c hc with hdigit | hmark
  · have hrange := (Char.isDigit_iff_toNat.mp hdigit).1
    have hzero : '0'.toNat = 48 := rfl
    omega
  · exact (by decide : Uncontrolled ['-', '+', '.', 'e']) c hmark

namespace Json

/-! ## Texts -/

theorem uncontrolled_hexDigits (width n : Nat) : Uncontrolled (Text.hexDigits width n) := by
  have hdigit : ∀ k < 16, 32 ≤ (Text.hexDigit k).toNat := by decide
  exact Text.forall_mem_hexDigits hdigit width n

/-- Control characters are escaped, and escapes have none. -/
theorem uncontrolled_escapeChar (c : Char) : Uncontrolled (escapeChar c) := by
  rw [escapeChar]
  split_ifs with hquote hbackslash hnewline hreturn htab hbackspace hfeed hcontrol
  all_goals try decide
  · have hescape : Uncontrolled ['\\', 'u'] := by decide
    exact hescape.append (uncontrolled_hexDigits 4 c.toNat)
  · simpa [Uncontrolled] using hcontrol

theorem uncontrolled_quote (s : String) : Uncontrolled (quote s).toList := by
  rw [toList_quote]
  refine List.forall_mem_cons.mpr ⟨by decide, Uncontrolled.append ?_ (by decide)⟩
  intro c hc
  obtain ⟨d, -, hcd⟩ := List.mem_flatMap.mp hc
  exact uncontrolled_escapeChar d c hcd

/-! ## Values -/

/-- A style that breaks no lines and has no control character in what it puts between values. -/
structure OneLine (st : Style) : Prop where
  lines : st.lines = none
  item : Uncontrolled st.item.toList
  key : Uncontrolled st.key.toList
  float : ∀ x, Uncontrolled (renderFloat st x).toList

theorem oneLine_tight : OneLine (tight none) where
  lines := rfl
  item := by decide
  key := by decide
  float
    | .finite negative c => (Notation.areNumerals_shortest _ negative c.val).uncontrolled
    | .infinite true | .infinite false | .nan => by decide

theorem oneLine_spaced : OneLine (spaced none) where
  lines := rfl
  item := by decide
  key := by decide
  float
    | .finite negative c => (Notation.areNumerals_shortest _ negative c.val).uncontrolled
    | .infinite true | .infinite false | .nan => by decide

namespace OneLine

variable {st : Style}

theorem lineBreak (h : OneLine st) (depth : Nat) : (st.lineBreak depth).toList = [] := by
  simp [Style.lineBreak, h.lines]

theorem renderItems (h : OneLine st) (depth : Nat) {vs : List Json}
    (hvs : ∀ v ∈ vs, Uncontrolled (render st depth v).toList) :
    Uncontrolled (renderItems st depth vs).toList := by
  induction vs with
  | nil => simp [Json.renderItems, Uncontrolled]
  | cons v vs ih =>
      obtain ⟨hv, hrest⟩ := List.forall_mem_cons.mp hvs
      simp only [Json.renderItems, String.toList_append, h.lineBreak, List.append_nil]
      exact (h.item.append hv).append (ih hrest)

theorem renderMembers (h : OneLine st) (depth : Nat) {ms : List (String × Json)}
    (hms : ∀ m ∈ ms, Uncontrolled (render st depth m.2).toList) :
    Uncontrolled (renderMembers st depth ms).toList := by
  induction ms with
  | nil => simp [Json.renderMembers, Uncontrolled]
  | cons m ms ih =>
      obtain ⟨hm, hrest⟩ := List.forall_mem_cons.mp hms
      simp only [Json.renderMembers, String.toList_append, h.lineBreak, List.append_nil]
      exact (((h.item.append (uncontrolled_quote m.1)).append h.key).append hm).append (ih hrest)

theorem render (h : OneLine st) (depth : Nat) (v : Json) :
    Uncontrolled (render st depth v).toList := by
  induction v using induction_parts generalizing depth with
  | step v ih =>
      have hparts := fun w hw => ih w hw (depth + 1)
      cases v with
      | null => simp [Json.render, Uncontrolled]
      | bool b => cases b <;> simp [Json.render, Uncontrolled]
      | int n => exact (Notation.areNumerals_integer n).uncontrolled
      | float x => exact h.float x
      | str s => exact uncontrolled_quote s
      | arr vs =>
          cases vs with
          | nil => simp [Json.render, Uncontrolled]
          | cons v vs =>
              obtain ⟨hv, hvs⟩ := List.forall_mem_cons.mp hparts
              have hopen : Uncontrolled "[".toList := by decide
              simp only [Json.render, String.toList_append, h.lineBreak, List.append_nil]
              exact ((hopen.append hv).append (h.renderItems _ hvs)).append (by decide)
      | obj ms =>
          cases ms with
          | nil => simp [Json.render, Uncontrolled]
          | cons m ms =>
              obtain ⟨hm, hms⟩ := List.forall_mem_cons.mp (List.forall_mem_map.mp hparts)
              have hname : Uncontrolled ("\x7b".toList ++ (quote m.1).toList ++ st.key.toList) :=
                (Uncontrolled.append (by decide) (uncontrolled_quote m.1)).append h.key
              simp only [Json.render, String.toList_append, h.lineBreak, List.append_nil]
              exact ((hname.append hm).append (h.renderMembers _ hms)).append (by decide)

end OneLine

/-- A value on one line has no control character in its text, and so no line break. -/
theorem uncontrolled_dump (v : Json) : Uncontrolled (v.dump 0).toList := by
  rw [dump, styleFor, if_pos rfl]
  split
  next => exact oneLine_tight.render 0 v
  next => exact oneLine_spaced.render 0 v

end Json

end PageDesign
