/-
# PageDesign.Proofs.Json.Prefix -- nothing shorter than an object is read as one

What a reader has taken from the front of a text does not change when more text is put behind, as
long as something was left: only a number at the very end of a text could go on (`extends`).  An
object ends with its own brace, so it is taken from every longer text as well.  A written object is
taken as a whole, and so no part of it that stands in front and is shorter is an object
(`parse_front_of_dump`).
-/
import PageDesign.Proofs.Json.Whole

namespace PageDesign.Json

/-! ## Texts and numbers -/

theorem skipGap_append_of_cons {cs rest : List Char} {c : Char} (h : skipGap cs = c :: rest)
    (more : List Char) : skipGap (cs ++ more) = c :: (rest ++ more) := by
  have hsome : ¬ (cs.dropWhile isGap).isEmpty = true := by
    rw [← skipGap, h]
    simp
  rw [skipGap, List.dropWhile_append, if_neg hsome, ← skipGap, h, List.cons_append]

theorem readText_extend {cs ds rest : List Char} (h : readText cs = some (ds, rest))
    (more : List Char) : readText (cs ++ more) = some (ds, rest ++ more) := by
  fun_induction readText cs generalizing ds
  all_goals try cases h
  case case2 e tail c hescape ih =>
    obtain ⟨⟨front, left⟩, hread, heq⟩ := Option.map_eq_some_iff.mp h
    cases heq
    rw [readText.eq_def]
    simp only [List.cons_append, hescape, ih hread, Option.map_some]
  case case5 hfirst hhigh _ _ _ _ tail m hsecond hlow hescape ih =>
    obtain ⟨⟨front, left⟩, hread, heq⟩ := Option.map_eq_some_iff.mp h
    cases heq
    rw [readText.eq_def]
    simp only [List.cons_append, hescape, hfirst, hsecond, ih hread, Option.map_some, if_pos hhigh,
      if_pos hlow, if_true]
  case case9 tail m hunit hhigh hlow hescape ih =>
    obtain ⟨⟨front, left⟩, hread, heq⟩ := Option.map_eq_some_iff.mp h
    cases heq
    rw [readText.eq_def]
    simp only [List.cons_append, hescape, hunit, ih hread, Option.map_some, if_neg hhigh,
      if_neg hlow, if_true]
  case case12.refl => rfl
  case case14 c tail hplain hquote hcontrol ih =>
    obtain ⟨⟨front, left⟩, hread, heq⟩ := Option.map_eq_some_iff.mp h
    cases heq
    rw [List.cons_append, readText.eq_def]
    split
    next heq => cases heq
    next heq => exact absurd (.inl (List.cons.inj heq).1) hcontrol
    next heq =>
      obtain ⟨rfl, rfl⟩ := List.cons.inj heq
      rw [if_neg hquote, if_neg hcontrol, ih hread, Option.map_some]

/-- Digits that something ends are the same with more text behind. -/
theorem spanDigits_extend {cs ds rest : List Char} (h : spanDigits cs = (ds, rest))
    (hrest : rest ≠ []) (more : List Char) : spanDigits (cs ++ more) = (ds, rest ++ more) := by
  obtain ⟨htake, hdrop⟩ := Prod.mk.inj h
  have hcs : cs = ds ++ rest := by rw [← htake, ← hdrop, List.takeWhile_append_dropWhile]
  have hdigits : AreDigits ds := fun c hc => List.mem_takeWhile_imp (htake ▸ hc)
  have hend : ∀ c, (rest ++ more).head? = some c → c.isDigit = false := by
    intro c hc
    rw [List.head?_append_of_ne_nil _ hrest, ← hdrop] at hc
    have hnot := List.head?_dropWhile_not Char.isDigit cs
    rwa [hc] at hnot
  rw [hcs, List.append_assoc, spanDigits_append hdigits hend]

theorem readFraction_of_ne {c : Char} (hc : c ≠ '.') (cs : List Char) :
    readFraction (c :: cs) = some ([], c :: cs) := by
  rw [readFraction]
  intro tail heq
  exact hc (List.cons.inj heq).1

theorem readFraction_extend {cs ds rest : List Char} (h : readFraction cs = some (ds, rest))
    (hrest : rest ≠ []) (more : List Char) :
    readFraction (cs ++ more) = some (ds, rest ++ more) := by
  cases cs with
  | nil =>
      cases h
      exact absurd rfl hrest
  | cons c cs =>
      by_cases hc : c = '.'
      · subst hc
        cases hspan : spanDigits cs with
        | mk digits left =>
            simp only [readFraction, hspan] at h
            obtain ⟨hsome, heq⟩ := Option.ite_none_left_eq_some.mp h
            cases heq
            simp only [List.cons_append, readFraction, spanDigits_extend hspan hrest more,
              if_neg hsome]
      · rw [readFraction_of_ne hc] at h
        cases h
        rw [List.cons_append, readFraction_of_ne hc]

/-- What is made of the digits of an exponent. -/
def signedDigits (negative : Bool) (span : List Char × List Char) : Option (Int × List Char) :=
  if span.1.isEmpty then none
  else some (if negative then -(natOfDigits span.1 : Int) else natOfDigits span.1, span.2)

/-- An exponent has its digits behind its sign, or at once if it has none. -/
theorem exists_readSignedDigits (c : Char) (cs : List Char) :
    ∃ negative digits, ∀ more, readSignedDigits (c :: (cs ++ more)) =
      signedDigits negative (spanDigits (digits ++ more)) := by
  by_cases hplus : c = '+'
  · subst hplus
    exact ⟨false, cs, fun _ => rfl⟩
  · by_cases hminus : c = '-'
    · subst hminus
      exact ⟨true, cs, fun _ => rfl⟩
    · refine ⟨false, c :: cs, fun more => ?_⟩
      rw [readSignedDigits]
      · rfl
      · exact fun _ heq => hplus (List.cons.inj heq).1
      · exact fun _ heq => hminus (List.cons.inj heq).1

theorem readSignedDigits_extend {cs rest : List Char} {n : Int}
    (h : readSignedDigits cs = some (n, rest)) (hrest : rest ≠ []) (more : List Char) :
    readSignedDigits (cs ++ more) = some (n, rest ++ more) := by
  cases cs with
  | nil => cases h
  | cons c cs =>
      obtain ⟨negative, digits, hread⟩ := exists_readSignedDigits c cs
      have hhere := hread []
      rw [List.append_nil, List.append_nil, h] at hhere
      obtain ⟨hsome, heq⟩ := Option.ite_none_left_eq_some.mp hhere.symm
      cases heq
      rw [List.cons_append, hread, @spanDigits_extend digits _ _ rfl hrest more]
      exact if_neg hsome

theorem readExponent_extend {cs rest : List Char} {n : Option Int}
    (h : readExponent cs = some (n, rest)) (hrest : rest ≠ []) (more : List Char) :
    readExponent (cs ++ more) = some (n, rest ++ more) := by
  cases cs with
  | nil =>
      cases h
      exact absurd rfl hrest
  | cons c cs =>
      rw [List.cons_append, readExponent]
      rw [readExponent] at h
      split at h
      next he =>
        obtain ⟨⟨k, left⟩, hread, heq⟩ := Option.map_eq_some_iff.mp h
        cases heq
        rw [if_pos he, readSignedDigits_extend hread hrest more, Option.map_some]
      next he =>
        cases h
        rw [if_neg he, List.cons_append]

theorem readMagnitude_extend {negative : Bool} {cs rest : List Char} {v : Json}
    (h : readMagnitude negative cs = some (v, rest)) (hrest : rest ≠ []) (more : List Char) :
    readMagnitude negative (cs ++ more) = some (v, rest ++ more) := by
  cases hspan : spanDigits cs with
  | mk whole left =>
      rw [readMagnitude, hspan] at h
      have hplain : ¬ (whole.isEmpty = true ∨ whole.head? = some '0' ∧ whole.length ≠ 1) := by
        intro hnone
        simp only [if_pos hnone] at h
        cases h
      simp only [if_neg hplain] at h
      obtain ⟨⟨fraction, middle⟩, hfraction, h⟩ := Option.bind_eq_some_iff.mp h
      obtain ⟨⟨exponent, last⟩, hexponent, heq⟩ := Option.bind_eq_some_iff.mp h
      cases heq
      have hmiddle : middle ≠ [] := by
        rintro rfl
        cases hexponent
        exact hrest rfl
      have hleft : left ≠ [] := by
        rintro rfl
        cases hfraction
        exact hmiddle rfl
      rw [readMagnitude, spanDigits_extend hspan hleft more]
      simp only [if_neg hplain, readFraction_extend hfraction hmiddle more,
        readExponent_extend hexponent hrest more, Option.bind_eq_bind, Option.bind_some,
        Option.pure_def]

theorem exists_digit_of_readMagnitude {negative : Bool} {cs rest : List Char} {v : Json}
    (h : readMagnitude negative cs = some (v, rest)) :
    ∃ c tail, cs = c :: tail ∧ c.isDigit = true := by
  cases cs with
  | nil => cases h
  | cons c tail =>
      refine ⟨c, tail, rfl, ?_⟩
      by_contra hc
      have hnone : spanDigits (c :: tail) = ([], c :: tail) := by simp [spanDigits, hc]
      rw [readMagnitude, hnone] at h
      cases h

theorem readScalar_extend {cs rest : List Char} {v : Json}
    (h : readScalar .strict cs = some (v, rest)) (hrest : rest ≠ []) (more : List Char) :
    readScalar .strict (cs ++ more) = some (v, rest ++ more) := by
  rw [readScalar.eq_def] at h
  split at h
  next =>
    cases h
    rfl
  next =>
    cases h
    rfl
  next =>
    cases h
    rfl
  next tail => exact @readMagnitude_extend true _ _ _ h hrest more
  next =>
    have hmagnitude : readMagnitude false cs = some (v, rest) := h
    obtain ⟨c, tail, rfl, hc⟩ := exists_digit_of_readMagnitude hmagnitude
    rw [List.cons_append, readScalar_digit .strict hc, ← List.cons_append]
    exact readMagnitude_extend hmagnitude hrest more

/-! ## Values -/

theorem readValue_nil (fuel : Nat) : readValue .strict fuel [] = none := by
  cases fuel with
  | zero => rfl
  | succ fuel => rfl

theorem readItems_nil (fuel : Nat) : readItems .strict fuel [] = none := by
  cases fuel with
  | zero => rfl
  | succ fuel => rw [readItems, readValue_nil]

theorem readMembers_nil (fuel : Nat) : readMembers .strict fuel [] = none := by
  cases fuel with
  | zero => rfl
  | succ fuel => rfl

/-- With some fuel or more, what is read stays the same with more text behind. -/
structure Extends (fuel : Nat) : Prop where
  value : ∀ {fuel' : Nat} {cs rest : List Char} {v : Json}, fuel ≤ fuel' →
    readValue .strict fuel cs = some (v, rest) → rest ≠ [] → ∀ more,
      readValue .strict fuel' (cs ++ more) = some (v, rest ++ more)
  items : ∀ {fuel' : Nat} {cs rest : List Char} {vs : List Json}, fuel ≤ fuel' →
    readItems .strict fuel cs = some (vs, rest) → ∀ more,
      readItems .strict fuel' (cs ++ more) = some (vs, rest ++ more)
  members : ∀ {fuel' : Nat} {cs rest : List Char} {ms : List (String × Json)}, fuel ≤ fuel' →
    readMembers .strict fuel cs = some (ms, rest) → ∀ more,
      readMembers .strict fuel' (cs ++ more) = some (ms, rest ++ more)

namespace Extends

variable {fuel : Nat}

theorem zero : Extends 0 where
  value _ h := by cases h
  items _ h := by cases h
  members _ h := by cases h

theorem items_succ (ih : Extends fuel) {fuel' : Nat} {cs rest : List Char} {vs : List Json}
    (hle : fuel ≤ fuel') (h : readItems .strict (fuel + 1) cs = some (vs, rest))
    (more : List Char) : readItems .strict (fuel' + 1) (cs ++ more) = some (vs, rest ++ more) := by
  rw [readItems] at h
  split at h
  next => cases h
  next v left hvalue =>
    split at h
    next tail hgap =>
      cases h
      have hleft : left ≠ [] := by
        rintro rfl
        cases hgap
      rw [readItems, ih.value hle hvalue hleft more]
      simp only [skipGap_append_of_cons hgap]
    next tail hgap =>
      obtain ⟨⟨ws, last⟩, hitems, heq⟩ := Option.map_eq_some_iff.mp h
      cases heq
      have hleft : left ≠ [] := by
        rintro rfl
        cases hgap
      rw [readItems, ih.value hle hvalue hleft more]
      simp only [skipGap_append_of_cons hgap, ih.items hle hitems more, Option.map_some]
    next => cases h

theorem members_succ (ih : Extends fuel) {fuel' : Nat} {cs rest : List Char}
    {ms : List (String × Json)} (hle : fuel ≤ fuel')
    (h : readMembers .strict (fuel + 1) cs = some (ms, rest)) (more : List Char) :
    readMembers .strict (fuel' + 1) (cs ++ more) = some (ms, rest ++ more) := by
  rw [readMembers] at h
  split at h
  next text hquote =>
    split at h
    next => cases h
    next key behind hkey =>
      split at h
      next worth hcolon =>
        split at h
        next => cases h
        next v left hvalue =>
          split at h
          next tail hgap =>
            cases h
            have hleft : left ≠ [] := by
              rintro rfl
              cases hgap
            rw [readMembers, skipGap_append_of_cons hquote]
            simp only [readText_extend hkey, skipGap_append_of_cons hcolon,
              ih.value hle hvalue hleft more, skipGap_append_of_cons hgap]
          next tail hgap =>
            obtain ⟨⟨ns, last⟩, hmembers, heq⟩ := Option.map_eq_some_iff.mp h
            cases heq
            have hleft : left ≠ [] := by
              rintro rfl
              cases hgap
            rw [readMembers, skipGap_append_of_cons hquote]
            simp only [readText_extend hkey, skipGap_append_of_cons hcolon,
              ih.value hle hvalue hleft more, skipGap_append_of_cons hgap,
              ih.members hle hmembers more, Option.map_some]
          next => cases h
      next => cases h
  next => cases h

/-- An object ends with its brace, even at the end of a text. -/
theorem object_succ (ih : Extends fuel) {fuel' : Nat} {cs inner rest : List Char} {v : Json}
    (hle : fuel ≤ fuel') (hopen : skipGap cs = '\x7b' :: inner)
    (h : readValue .strict (fuel + 1) cs = some (v, rest)) (more : List Char) :
    readValue .strict (fuel' + 1) (cs ++ more) = some (v, rest ++ more) := by
  rw [readValue, hopen] at h
  rw [readValue, skipGap_append_of_cons hopen]
  simp only at h ⊢
  split at h
  next tail hclose =>
    cases h
    simp only [skipGap_append_of_cons hclose]
  next hother =>
    obtain ⟨⟨ms, last⟩, hmembers, heq⟩ := Option.map_eq_some_iff.mp h
    cases heq
    cases hinner : skipGap inner with
    | nil =>
        rw [hinner, readMembers_nil] at hmembers
        cases hmembers
    | cons c tail =>
        have hc : c ≠ '\x7d' := by
          rintro rfl
          exact hother tail hinner
        have hlong := ih.members hle hmembers more
        rw [hinner, List.cons_append] at hlong
        rw [skipGap_append_of_cons hinner]
        split
        next heq => exact absurd (List.cons.inj heq).1 hc
        next => rw [hlong, Option.map_some]

theorem array_succ (ih : Extends fuel) {fuel' : Nat} {cs inner rest : List Char} {v : Json}
    (hle : fuel ≤ fuel') (hopen : skipGap cs = '[' :: inner)
    (h : readValue .strict (fuel + 1) cs = some (v, rest)) (more : List Char) :
    readValue .strict (fuel' + 1) (cs ++ more) = some (v, rest ++ more) := by
  rw [readValue, hopen] at h
  rw [readValue, skipGap_append_of_cons hopen]
  simp only at h ⊢
  split at h
  next tail hclose =>
    cases h
    simp only [skipGap_append_of_cons hclose]
  next hother =>
    obtain ⟨⟨vs, last⟩, hitems, heq⟩ := Option.map_eq_some_iff.mp h
    cases heq
    cases hinner : skipGap inner with
    | nil =>
        rw [hinner, readItems_nil] at hitems
        cases hitems
    | cons c tail =>
        have hc : c ≠ ']' := by
          rintro rfl
          exact hother tail hinner
        have hlong := ih.items hle hitems more
        rw [hinner, List.cons_append] at hlong
        rw [skipGap_append_of_cons hinner]
        split
        next heq => exact absurd (List.cons.inj heq).1 hc
        next => rw [hlong, Option.map_some]

theorem value_succ (ih : Extends fuel) {fuel' : Nat} {cs rest : List Char} {v : Json}
    (hle : fuel ≤ fuel') (h : readValue .strict (fuel + 1) cs = some (v, rest))
    (hrest : rest ≠ []) (more : List Char) :
    readValue .strict (fuel' + 1) (cs ++ more) = some (v, rest ++ more) := by
  cases hcs : skipGap cs with
  | nil =>
      rw [readValue, hcs] at h
      cases h
  | cons c inner =>
      by_cases hbracket : c = '['
      · exact ih.array_succ hle (hbracket ▸ hcs) h more
      · by_cases hbrace : c = '\x7b'
        · exact ih.object_succ hle (hbrace ▸ hcs) h more
        · rw [readValue, hcs] at h
          rw [readValue, skipGap_append_of_cons hcs]
          by_cases hquote : c = '\x22'
          · subst hquote
            obtain ⟨⟨ds, left⟩, htext, heq⟩ := Option.map_eq_some_iff.mp h
            cases heq
            simp only [readText_extend htext, Option.map_some]
          · have hscalar : readScalar .strict (c :: inner) = some (v, rest) := by
              split at h
              next heq => exact absurd (List.cons.inj heq).1 hbracket
              next heq => exact absurd (List.cons.inj heq).1 hbrace
              next heq => exact absurd (List.cons.inj heq).1 hquote
              next => exact h
            split
            next heq => exact absurd (List.cons.inj heq).1 hbracket
            next heq => exact absurd (List.cons.inj heq).1 hbrace
            next heq => exact absurd (List.cons.inj heq).1 hquote
            next => exact readScalar_extend hscalar hrest more

theorem succ (ih : Extends fuel) : Extends (fuel + 1) where
  value := fun {fuel'} _ _ _ hle h hrest more => by
    cases fuel' with
    | zero => cases hle
    | succ fuel' => exact ih.value_succ (Nat.le_of_succ_le_succ hle) h hrest more
  items := fun {fuel'} _ _ _ hle h more => by
    cases fuel' with
    | zero => cases hle
    | succ fuel' => exact ih.items_succ (Nat.le_of_succ_le_succ hle) h more
  members := fun {fuel'} _ _ _ hle h more => by
    cases fuel' with
    | zero => cases hle
    | succ fuel' => exact ih.members_succ (Nat.le_of_succ_le_succ hle) h more

end Extends

theorem extends_all (fuel : Nat) : Extends fuel := by
  induction fuel with
  | zero => exact .zero
  | succ fuel ih => exact ih.succ

/-! ## The front of a written value -/

variable {v : Json} {indent : Int} {inner behind : List Char}

/-- An object that is read from the front of a written value is the whole value. -/
theorem eq_nil_of_readValue_front (h : (v.dump indent).toList = '\x7b' :: inner ++ behind)
    {fuel : Nat} {w : Json} {rest : List Char}
    (hread : readValue .strict fuel ('\x7b' :: inner) = some (w, rest)) : behind = [] := by
  cases fuel with
  | zero => cases hread
  | succ fuel =>
      obtain ⟨g, hreads, -, -⟩ := exists_reads_styleFor v indent
      let enough := fuel + 2 * (v.dump indent).toList.length
      have hlong := (extends_all fuel).object_succ (Nat.le_add_right fuel _ : fuel ≤ enough)
        (skipGap_cons rfl inner) hread behind
      have hwhole := (readsBack hreads (enough + 1)).value 0 v []
        (Nat.le_succ_of_le (Nat.le_add_left _ fuel)) (by simp [EndsNumber])
      rw [← dump, List.append_nil, h, hlong] at hwhole
      obtain ⟨x, -, heq⟩ := Option.map_eq_some_iff.mp hwhole.symm
      exact (List.append_eq_nil_iff.mp (congrArg Prod.snd heq).symm).2

/-- No part in front of a written value that is shorter is an object. -/
theorem parseList_front (h : (v.dump indent).toList = '\x7b' :: inner ++ behind)
    (hbehind : behind ≠ []) : parseList .strict ('\x7b' :: inner) = none := by
  have hnone : readValue .strict (fuelFor ('\x7b' :: inner)) ('\x7b' :: inner) = none := by
    cases hread : readValue .strict (fuelFor ('\x7b' :: inner)) ('\x7b' :: inner) with
    | none => rfl
    | some result => exact absurd (eq_nil_of_readValue_front h hread) hbehind
  rw [parseList, parseAhead, hnone]
  rfl

end PageDesign.Json
