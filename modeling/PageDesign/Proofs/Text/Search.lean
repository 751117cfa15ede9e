/-
# PageDesign.Proofs.Text.Search -- where a text is cut

Texts are trimmed at their ends, parted at each occurrence of a character, and parted at the first
occurrence of a piece.  Here it is told where the cuts are when a text is put together from parts:
a trimmed part stays whole (`trimList_append`), separators are found one part after the other
(`splitAtEach_append`), and the first occurrence of a piece is looked for in the front part first,
where nothing that comes behind it changes what is found (`splitAtFirst?_append`).
-/
import PageDesign.Text.Blank
import PageDesign.Text.Search

namespace PageDesign.Text

/-! ## Ends -/

section Ends

variable {p : Char → Bool}

theorem dropEndWhile_append {cs after : List Char} (h : ∀ c ∈ after, p c = true) :
    dropEndWhile p (cs ++ after) = dropEndWhile p cs := by
  have hreverse : ∀ c ∈ after.reverse, p c = true := fun c hc => h c (List.mem_reverse.mp hc)
  rw [dropEndWhile, List.reverse_append, List.dropWhile_append_of_pos hreverse]
  rfl

theorem dropEndWhile_concat {cs : List Char} {c : Char} (h : p c = false) :
    dropEndWhile p (cs ++ [c]) = cs ++ [c] := by
  rw [dropEndWhile, List.reverse_append, List.reverse_singleton, List.singleton_append,
    List.dropWhile_cons_of_neg (by simp [h])]
  simp

/-- What stands in front of a character that stays is not looked at. -/
theorem dropEndWhile_append_cons (cs : List Char) {c : Char} (h : p c = false)
    (after : List Char) : dropEndWhile p (cs ++ c :: after) = cs ++ c :: dropEndWhile p after := by
  have hc : ¬ p c = true := by simp [h]
  have hreverse : (cs ++ c :: after).reverse = after.reverse ++ c :: cs.reverse := by simp
  rw [dropEndWhile, dropEndWhile, hreverse, List.dropWhile_append]
  split
  next hempty =>
    rw [List.isEmpty_iff.mp hempty, List.dropWhile_cons_of_neg hc]
    simp
  next => simp

theorem dropEndWhile_eq_nil {cs : List Char} (h : ∀ c ∈ cs, p c = true) :
    dropEndWhile p cs = [] :=
  @dropEndWhile_append p [] cs h

theorem mem_of_mem_dropEndWhile {cs : List Char} {c : Char} (h : c ∈ dropEndWhile p cs) :
    c ∈ cs :=
  List.mem_reverse.mp ((List.dropWhile_subset _) (List.mem_reverse.mp h))

theorem dropEndWhile_prefix (p : Char → Bool) (cs : List Char) : dropEndWhile p cs <+: cs := by
  have hsuffix : (cs.reverse.dropWhile p).reverse <+: cs.reverse.reverse :=
    List.reverse_prefix.mpr (List.dropWhile_suffix p)
  rwa [List.reverse_reverse] at hsuffix

/-- Of two classes, the larger one decides where a text ends. -/
theorem dropEndWhile_dropEndWhile {q : Char → Bool} (h : ∀ c, p c = true → q c = true)
    (cs : List Char) : dropEndWhile q (dropEndWhile p cs) = dropEndWhile q cs := by
  have hdrop (ds : List Char) : (ds.dropWhile p).dropWhile q = ds.dropWhile q := by
    induction ds with
    | nil => rfl
    | cons d ds ih =>
        by_cases hd : p d = true
        · rw [List.dropWhile_cons_of_pos hd, ih, List.dropWhile_cons_of_pos (h d hd)]
        · rw [List.dropWhile_cons_of_neg hd]
  rw [dropEndWhile, dropEndWhile, List.reverse_reverse, hdrop, dropEndWhile]

/-- A part that neither begins nor ends with members of a class stays whole. -/
theorem trimList_append (before : List Char) {c d : Char} (mid after : List Char)
    (hc : p c = false) (hd : p d = false) :
    trimList p (before ++ (c :: (mid ++ [d])) ++ after) =
      before.dropWhile p ++ (c :: (mid ++ [d])) ++ dropEndWhile p after := by
  have hfront : (before ++ (c :: (mid ++ [d])) ++ after).dropWhile p =
      before.dropWhile p ++ (c :: mid) ++ d :: after := by
    rw [List.append_assoc, List.dropWhile_append]
    split
    next hempty =>
      rw [List.isEmpty_iff.mp hempty, List.cons_append, List.dropWhile_cons_of_neg (by simp [hc])]
      simp
    next => simp
  rw [trimList, hfront, dropEndWhile_append_cons _ hd]
  simp

/-- A member of the class in front is left out. -/
theorem trimList_cons {c : Char} (h : p c = true) (cs : List Char) :
    trimList p (c :: cs) = trimList p cs := by
  rw [trimList, List.dropWhile_cons_of_pos h, ← trimList]

theorem mem_of_mem_trimList {cs : List Char} {c : Char} (h : c ∈ trimList p cs) : c ∈ cs :=
  List.dropWhile_subset p (mem_of_mem_dropEndWhile h)

/-- A trimmed text has nothing more to be left out. -/
theorem trimList_trimList (p : Char → Bool) (cs : List Char) :
    trimList p (trimList p cs) = trimList p cs := by
  have hhead := List.head?_dropWhile_not p cs
  rw [trimList, trimList]
  generalize cs.dropWhile p = ds at hhead
  cases ds with
  | nil => rfl
  | cons d ds =>
      have hd : p d = false := hhead
      have hends : dropEndWhile p (d :: ds) = d :: dropEndWhile p ds :=
        dropEndWhile_append_cons [] hd ds
      rw [hends, List.dropWhile_cons_of_neg (by simp [hd]), ← hends,
        dropEndWhile_dropEndWhile fun _ h => h]

end Ends

/-! ## Every occurrence of a character -/

/-- The pieces in front of a separator and those behind it are the pieces of the whole. -/
theorem splitAtEach_append (sep : Char) (cs ds : List Char) :
    splitAtEach sep (cs ++ sep :: ds) = splitAtEach sep cs ++ splitAtEach sep ds := by
  induction cs with
  | nil =>
      obtain ⟨piece, pieces, heq⟩ := List.exists_cons_of_ne_nil (splitAtEach_ne_nil sep ds)
      simp [splitAtEach, heq]
  | cons c cs ih =>
      obtain ⟨piece, pieces, heq⟩ := List.exists_cons_of_ne_nil (splitAtEach_ne_nil sep cs)
      rw [List.cons_append, splitAtEach, ih, heq, splitAtEach, heq]
      dsimp only [List.cons_append]
      split <;> rfl

/-- A character that is no separator belongs to the first piece. -/
theorem splitAtEach_cons {sep c : Char} (hc : c ≠ sep) (cs : List Char) :
    ∃ piece pieces, splitAtEach sep cs = piece :: pieces ∧
      splitAtEach sep (c :: cs) = (c :: piece) :: pieces := by
  obtain ⟨piece, pieces, heq⟩ := List.exists_cons_of_ne_nil (splitAtEach_ne_nil sep cs)
  exact ⟨piece, pieces, heq, by simp [splitAtEach, heq, hc]⟩

/-- Every character but the separator is in a piece. -/
theorem exists_mem_splitAtEach {sep c : Char} (hc : c ≠ sep) {cs : List Char} (h : c ∈ cs) :
    ∃ piece ∈ splitAtEach sep cs, c ∈ piece := by
  induction cs with
  | nil => simp at h
  | cons d ds ih =>
      obtain ⟨piece, pieces, heq⟩ := List.exists_cons_of_ne_nil (splitAtEach_ne_nil sep ds)
      simp only [splitAtEach, heq]
      simp only [heq] at ih
      by_cases hd : d = sep
      · rw [if_pos hd]
        have hmem : c ∈ ds := (List.mem_cons.mp h).resolve_left (hd ▸ hc)
        obtain ⟨found, hfound, hcf⟩ := ih hmem
        exact ⟨found, List.mem_cons_of_mem _ hfound, hcf⟩
      · rw [if_neg hd]
        rcases List.mem_cons.mp h with rfl | hmem
        · exact ⟨c :: piece, List.mem_cons_self, List.mem_cons_self⟩
        · obtain ⟨found, hfound, hcf⟩ := ih hmem
          rcases List.mem_cons.mp hfound with rfl | hlater
          · exact ⟨d :: found, List.mem_cons_self, List.mem_cons_of_mem _ hcf⟩
          · exact ⟨found, List.mem_cons_of_mem _ hlater, hcf⟩

theorem splitAtEach_of_notMem {sep : Char} {cs : List Char} (h : sep ∉ cs) :
    splitAtEach sep cs = [cs] := by
  induction cs with
  | nil => rfl
  | cons c cs ih =>
      rw [List.mem_cons, not_or] at h
      rw [splitAtEach, ih h.2]
      exact if_neg (Ne.symm h.1)

/-- No piece has the separator in it. -/
theorem notMem_of_mem_splitAtEach {sep : Char} {cs piece : List Char}
    (h : piece ∈ splitAtEach sep cs) : sep ∉ piece := by
  induction cs generalizing piece with
  | nil =>
      rw [splitAtEach, List.mem_singleton] at h
      simp [h]
  | cons c cs ih =>
      obtain ⟨first, pieces, heq⟩ := List.exists_cons_of_ne_nil (splitAtEach_ne_nil sep cs)
      rw [heq] at ih
      simp only [splitAtEach, heq] at h
      by_cases hc : c = sep
      · rw [if_pos hc] at h
        rcases List.mem_cons.mp h with rfl | hpiece
        · exact List.not_mem_nil
        · exact ih hpiece
      · rw [if_neg hc] at h
        rcases List.mem_cons.mp h with rfl | hlater
        · exact List.not_mem_cons_of_ne_of_not_mem (Ne.symm hc) (ih List.mem_cons_self)
        · exact ih (List.mem_cons_of_mem _ hlater)

/-! ## The first occurrence of a piece -/

section First

variable {piece cs before after : List Char}

theorem splitAtFirst?_of_prefix (hpiece : piece ≠ []) (after : List Char) :
    splitAtFirst? piece (piece ++ after) = some ([], after) := by
  cases piece with
  | nil => exact absurd rfl hpiece
  | cons c piece =>
      have hstart : (c :: piece).isPrefixOf (c :: (piece ++ after)) = true :=
        List.isPrefixOf_iff_prefix.mpr (List.prefix_append (c :: piece) after)
      rw [List.cons_append, splitAtFirst?, if_pos hstart]
      simp

theorem splitAtFirst?_cons {c : Char} (h : ¬ piece <+: c :: cs) :
    splitAtFirst? piece (c :: cs) =
      (splitAtFirst? piece cs).map fun (before, after) => (c :: before, after) := by
  rw [splitAtFirst?, if_neg (by rwa [List.isPrefixOf_iff_prefix])]

/-- A piece that is found is a part of the text. -/
theorem eq_append_of_splitAtFirst? (h : splitAtFirst? piece cs = some (before, after)) :
    cs = before ++ (piece ++ after) := by
  induction cs generalizing before with
  | nil =>
      obtain ⟨hempty, heq⟩ := Option.ite_none_right_eq_some.mp h
      cases heq
      rw [List.isEmpty_iff.mp hempty]
      rfl
  | cons c cs ih =>
      rw [splitAtFirst?] at h
      split at h
      next hstart =>
        cases h
        obtain ⟨rest, hrest⟩ := List.isPrefixOf_iff_prefix.mp hstart
        rw [← hrest, List.drop_left, List.nil_append]
      next =>
        obtain ⟨⟨b, a⟩, hfound, heq⟩ := Option.map_eq_some_iff.mp h
        cases heq
        rw [ih hfound, List.cons_append]

/-- What comes behind a text does not change where a piece is found in it. -/
theorem splitAtFirst?_append (h : splitAtFirst? piece cs = some (before, after))
    (more : List Char) : splitAtFirst? piece (cs ++ more) = some (before, after ++ more) := by
  induction cs generalizing before with
  | nil =>
      obtain ⟨hempty, heq⟩ := Option.ite_none_right_eq_some.mp h
      cases heq
      rw [List.isEmpty_iff.mp hempty]
      cases more <;> simp [splitAtFirst?]
  | cons c cs ih =>
      by_cases hstart : piece <+: c :: cs
      · obtain ⟨rest, hrest⟩ := hstart
        by_cases hpiece : piece = []
        · subst hpiece
          simp only [splitAtFirst?, List.isPrefixOf_nil_left, if_true, List.length_nil,
            List.drop_zero, Option.some.injEq, Prod.mk.injEq] at h
          obtain ⟨rfl, rfl⟩ := h
          simp [splitAtFirst?]
        · rw [← hrest, splitAtFirst?_of_prefix hpiece] at h
          cases h
          rw [← hrest, List.append_assoc, splitAtFirst?_of_prefix hpiece]
      · rw [splitAtFirst?_cons hstart] at h
        obtain ⟨⟨b, a⟩, hfound, heq⟩ := Option.map_eq_some_iff.mp h
        cases heq
        have hmore := ih hfound
        rw [List.cons_append, splitAtFirst?_cons ?_, hmore]
        · rfl
        · -- the piece ends inside of the text, so it would have begun here before
          intro hbegins
          apply hstart
          have hlength := congrArg List.length (eq_append_of_splitAtFirst? hfound)
          simp only [List.length_append] at hlength
          have hshort : piece.length ≤ (c :: cs).length := by
            rw [List.length_cons]
            omega
          rw [← List.cons_append] at hbegins
          exact List.prefix_of_prefix_length_le hbegins (List.prefix_append _ _) hshort

/-- A piece that is not found in a text, and that does not have the character behind it, is found
only behind that character. -/
theorem splitAtFirst?_append_cons {d : Char} (h : splitAtFirst? piece cs = none)
    (hd : d ∉ piece) (ds : List Char) :
    splitAtFirst? piece (cs ++ d :: ds) =
      (splitAtFirst? piece ds).map fun (before, after) => (cs ++ d :: before, after) := by
  have hpiece : piece ≠ [] := by
    rintro rfl
    cases cs <;> simp [splitAtFirst?] at h
  induction cs with
  | nil =>
      rw [List.nil_append, splitAtFirst?_cons ?_]
      · rfl
      · intro hstart
        obtain ⟨c, cs, rfl⟩ := List.exists_cons_of_ne_nil hpiece
        exact hd (by simp [(List.cons_prefix_cons.mp hstart).1])
  | cons c cs ih =>
      by_cases hstart : piece <+: c :: cs
      · obtain ⟨rest, hrest⟩ := hstart
        rw [← hrest, splitAtFirst?_of_prefix hpiece] at h
        cases h
      · rw [splitAtFirst?_cons hstart, Option.map_eq_none_iff] at h
        have hbegins : ¬ piece <+: c :: (cs ++ d :: ds) := by
          intro hbegins
          rw [← List.cons_append] at hbegins
          rcases Nat.lt_or_ge (c :: cs).length piece.length with hover | hfront
          · -- the piece reaches over the end of the text, so it has the character there
            have hwhole : c :: cs ++ [d] <+: c :: cs ++ d :: ds :=
              (List.prefix_append_right_inj _).mpr (List.prefix_append [d] ds)
            have hlength : (c :: cs ++ [d]).length ≤ piece.length := by
              rw [List.length_append]
              exact hover
            have hwithin : c :: cs ++ [d] <+: piece :=
              List.prefix_of_prefix_length_le hwhole hbegins hlength
            exact hd (hwithin.subset (by simp))
          · exact hstart (List.prefix_of_prefix_length_le hbegins (List.prefix_append _ _) hfront)
        rw [List.cons_append, splitAtFirst?_cons hbegins, ih h, Option.map_map]
        rfl

theorem splitAtFirst?_eq_none {c : Char} (hc : c ∉ cs) (piece : List Char) :
    splitAtFirst? (c :: piece) cs = none := by
  induction cs with
  | nil => rfl
  | cons d cs ih =>
      rw [List.mem_cons, not_or] at hc
      have hbegins : ¬ c :: piece <+: d :: cs := fun h => hc.1 (List.cons_prefix_cons.mp h).1
      rw [splitAtFirst?_cons hbegins, ih hc.2]
      rfl

/-- What stands in front does not matter if it lacks the first character of the piece. -/
theorem splitAtFirst?_append_left {c : Char} (hc : c ∉ before) (piece cs : List Char) :
    splitAtFirst? (c :: piece) (before ++ cs) =
      (splitAtFirst? (c :: piece) cs).map fun (front, after) => (before ++ front, after) := by
  induction before with
  | nil => simp
  | cons d before ih =>
      rw [List.mem_cons, not_or] at hc
      have hbegins : ¬ c :: piece <+: d :: (before ++ cs) :=
        fun h => hc.1 (List.cons_prefix_cons.mp h).1
      rw [List.cons_append, splitAtFirst?_cons hbegins, ih hc.2, Option.map_map]
      rfl

/-- A piece is found behind a text without its first character. -/
theorem splitAtFirst?_of_notMem {c : Char} (hc : c ∉ before) (piece after : List Char) :
    splitAtFirst? (c :: piece) (before ++ (c :: piece ++ after)) = some (before, after) := by
  rw [splitAtFirst?_append_left hc, splitAtFirst?_of_prefix (List.cons_ne_nil c piece)]
  simp

/-- What stands behind does not matter if it has no character of the piece. -/
theorem splitAtFirst?_append_eq_none (h : splitAtFirst? piece cs = none)
    (hafter : ∀ c ∈ piece, c ∉ after) : splitAtFirst? piece (cs ++ after) = none := by
  cases after with
  | nil => rwa [List.append_nil]
  | cons d ds =>
      have hd : d ∉ piece := fun hmem => hafter d hmem List.mem_cons_self
      rw [splitAtFirst?_append_cons h hd]
      cases piece with
      | nil => cases cs <;> simp [splitAtFirst?] at h
      | cons c piece =>
          have hc : c ∉ ds := fun hmem => hafter c List.mem_cons_self (List.mem_cons_of_mem d hmem)
          rw [splitAtFirst?_eq_none hc]
          rfl

end First

end PageDesign.Text
