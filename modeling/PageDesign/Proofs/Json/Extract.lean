/-
# PageDesign.Proofs.Json.Extract -- the object in a text is found again

An object is found between its braces, without the blanks around it.  A written object begins
with one brace and ends with the other, so all of it is found, whatever its strings hold: a
fence is not looked for, and braces in strings are inside (`candidate_dump`).  What is found is
what was written, so it is read back at every indentation (`extractObject_dump`).
-/
import PageDesign.Json.Extract
import PageDesign.Proofs.Json.Number
import PageDesign.Proofs.Json.Whole
import PageDesign.Proofs.Text.Search

namespace PageDesign

namespace Json

/-! ## Where an object is -/

/-- A text that one brace opens and one closes. -/
def Braced (cs : List Char) : Prop := ∃ mid, cs = '\x7b' :: (mid ++ ['\x7d'])

section Braced

variable {s : String} {p t q : List Char}

/-- Between characters that are no braces of its kind, all of it is found. -/
theorem objectSpan?_of_braced (ht : Braced t) (hp : '\x7b' ∉ p) (hq : '\x7d' ∉ q) :
    objectSpan? (p ++ t ++ q) = some t := by
  obtain ⟨mid, rfl⟩ := ht
  have hfront : ∀ c ∈ p, (c != '\x7b') = true := by
    intro c hc
    rw [bne_iff_ne]
    rintro rfl
    exact hp hc
  have hback : ∀ c ∈ q, (c != '\x7d') = true := by
    intro c hc
    rw [bne_iff_ne]
    rintro rfl
    exact hq hc
  rw [objectSpan?, List.append_assoc, List.dropWhile_append_of_pos hfront, List.cons_append,
    List.dropWhile_cons_of_neg (by decide), ← List.cons_append, Text.dropEndWhile_append hback,
    ← List.cons_append, Text.dropEndWhile_concat (by decide)]
  rfl

theorem trimList_braced (ht : Braced t) : Text.trimList Text.isBlank (p ++ t ++ q) =
    p.dropWhile Text.isBlank ++ t ++ Text.dropEndWhile Text.isBlank q := by
  obtain ⟨mid, rfl⟩ := ht
  exact Text.trimList_append p mid q (by decide) (by decide)

/-- Behind nothing but blanks, an object is found. -/
theorem candidate_bare (h : s.toList = p ++ t ++ q) (ht : Braced t)
    (hblank : ∀ c ∈ p, Text.isBlank c = true) (hq : '\x7d' ∉ q) : candidate? s = some t := by
  have hfront : p.dropWhile Text.isBlank = [] := List.dropWhile_eq_nil_iff.mpr hblank
  have hhead : (t ++ Text.dropEndWhile Text.isBlank q).head? = some '\x7b' := by
    obtain ⟨mid, rfl⟩ := ht
    rfl
  have hback : '\x7d' ∉ Text.dropEndWhile Text.isBlank q :=
    fun hmem => hq (Text.mem_of_mem_dropEndWhile hmem)
  rw [candidate?, h, trimList_braced ht, hfront, List.nil_append, if_pos hhead]
  exact objectSpan?_of_braced ht List.not_mem_nil hback

end Braced

theorem braced_dump (ms : Members) (indent : Int) : Braced ((obj ms).dump indent).toList := by
  rw [dump]
  generalize styleFor (obj ms) indent = st
  by_cases hms : ms = []
  · exact ⟨[], by simp [hms, render]⟩
  · refine ⟨(st.lineBreak 1).toList ++ ((renderAllMembers st 1 ms).toList ++
      (st.lineBreak 0).toList), ?_⟩
    rw [toList_render_obj 0 hms]
    simp

variable {before after : String}

/-- A written object is found as a whole, with blanks around it or without. -/
theorem candidate_dump (ms : Members) (indent : Int) (hbefore : Text.isBlankText before = true)
    (hafter : Text.isBlankText after = true) :
    candidate? (before ++ (obj ms).dump indent ++ after) = some ((obj ms).dump indent).toList := by
  have hbrace : '\x7d' ∉ after.toList := fun hmem =>
    absurd (List.all_eq_true.mp hafter _ hmem) (by decide)
  refine candidate_bare ?_ (braced_dump ms indent) (List.all_eq_true.mp hbefore) hbrace
  rw [String.toList_append, String.toList_append]

/-! ## The object that is found -/

/-- An object is found in a text if it stands there as a strict text, or if nothing does and it
is pieced together. -/
theorem extractObject_eq_ok_iff {s : String} {repair : Bool} {ms : Members} :
    extractObject s repair = .ok ms ↔ ∃ span, candidate? s = some span ∧
      (parseList .strict span = some (.obj ms) ∨
        repair = true ∧ parseList .strict span = none ∧ Repair.repairList span = some (.obj ms)) := by
  rw [extractObject]
  cases candidate? s with
  | none => simp [throw, throwThe, MonadExceptOf.throw]
  | some span =>
      cases hparse : parseList .strict span with
      | some v =>
          cases v <;>
            simp [hparse, bind, Except.bind, pure, Except.pure, throw, throwThe, MonadExceptOf.throw]
      | none =>
          cases repair with
          | false => simp [hparse, bind, Except.bind, throw, throwThe, MonadExceptOf.throw]
          | true =>
              cases hrepair : Repair.repairList span with
              | none =>
                  simp [hparse, hrepair, bind, Except.bind, throw, throwThe, MonadExceptOf.throw]
              | some v =>
                  cases v <;>
                    simp [hparse, hrepair, bind, Except.bind, pure, Except.pure, throw, throwThe,
                      MonadExceptOf.throw]

theorem extractObject_strict_iff {s : String} {ms : Members} :
    extractObject s false = .ok ms ↔
      ∃ span, candidate? s = some span ∧ parseList .strict span = some (.obj ms) := by
  simp [extractObject_eq_ok_iff]

/-- An object that keeps the limits of a text is read back from what is written for it. -/
theorem extractObject_of_takes {ms : Members} (h : Everywhere Dialect.strict.Takes (.obj ms))
    (indent : Int) (hbefore : Text.isBlankText before = true)
    (hafter : Text.isBlankText after = true) (repair : Bool) :
    extractObject (before ++ (obj ms).dump indent ++ after) repair = .ok ms := by
  have hfinite : Everywhere IsFinite (.obj ms) := by
    refine h.mono fun v hv => ?_
    cases v with
    | float x => exact hv
    | _ => trivial
  have hparse : parse .strict ((obj ms).dump indent) = some (.obj ms) :=
    (parse_dump hfinite indent).trans (accept_eq_self h)
  exact extractObject_eq_ok_iff.mpr ⟨_, candidate_dump ms indent hbefore hafter, .inl hparse⟩

/-! ## Values that every text can hold -/

/-- An integer of 64 bits has far fewer digits than a text may have. -/
theorem takesInt_of_fitsWord {n : Int} (h : fitsWord n = true) :
    Dialect.strict.takesInt n = true := by
  simp only [fitsWord, Bool.and_eq_true, decide_eq_true_eq] at h
  have hdigits : Binary64.digitCount n.natAbs ≤ 20 :=
    (Binary64.digitCount_le_iff (by decide)).mpr (by omega)
  have hmax : 21 ≤ maxIntegerLength := by decide
  rw [Dialect.takesInt, decide_eq_true_eq]
  split <;> omega

theorem takes_of_fit {v : Json} (hfit : NumbersFit v) (hkeys : KeysDistinct v) :
    Dialect.strict.Takes v := by
  cases v with
  | int n => exact takesInt_of_fitsWord hfit
  | float x => exact hfit
  | obj ms => exact hkeys
  | null | bool b | str s | arr vs => trivial

theorem everywhere_takes_of_fit {v : Json} (hfit : Everywhere NumbersFit v)
    (hkeys : Everywhere KeysDistinct v) : Everywhere Dialect.strict.Takes v :=
  (hfit.and hkeys).mono fun _ h => takes_of_fit h.1 h.2

/-- An object without a repeated key at any depth, the numbers in which fit, is read back from
what is written for it at every indentation, with blanks around it, and in the same order,
whether a damaged object would be pieced together or not.  Its strings may hold anything. -/
theorem extractObject_dump {ms : Members} (hfit : Everywhere NumbersFit (.obj ms))
    (hkeys : Everywhere KeysDistinct (.obj ms)) (indent : Int)
    (hbefore : Text.isBlankText before = true) (hafter : Text.isBlankText after = true)
    (repair : Bool) :
    extractObject (before ++ (obj ms).dump indent ++ after) repair = .ok ms :=
  extractObject_of_takes (everywhere_takes_of_fit hfit hkeys) indent hbefore hafter repair

/-- A string that holds a fence and braces, in an object between blanks. -/
theorem extractObject_dump_sample :
    let ms : Members := [("b", .str "```\n\x7d\x7b\"\\"), ("a", .arr [.int (-5), .obj [], .null])]
    ∀ indent repair, extractObject ("\n " ++ (obj ms).dump indent ++ "\t") repair = .ok ms := by
  intro ms indent repair
  have hscalar {p : Json → Prop} {v : Json} (hv : v.parts = []) (h : p v) : Everywhere p v :=
    (everywhere_scalar hv).mpr h
  have hfit : Everywhere NumbersFit (.obj ms) := by
    simp only [ms, everywhere_obj, everywhere_arr, List.forall_mem_cons]
    exact ⟨trivial, hscalar rfl trivial,
      ⟨trivial, hscalar rfl rfl, ⟨trivial, by simp⟩, hscalar rfl trivial, by simp⟩, by simp⟩
  have hkeys : Everywhere KeysDistinct (.obj ms) := by
    simp only [ms, everywhere_obj, everywhere_arr, List.forall_mem_cons]
    exact ⟨by simp [KeysDistinct, Keyed.names], hscalar rfl trivial,
      ⟨trivial, hscalar rfl trivial, ⟨List.nodup_nil, by simp⟩, hscalar rfl trivial, by simp⟩,
      by simp⟩
  exact extractObject_dump hfit hkeys indent (by decide) (by decide) repair

end Json

end PageDesign
