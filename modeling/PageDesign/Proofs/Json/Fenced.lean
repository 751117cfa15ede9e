/-
# PageDesign.Proofs.Json.Fenced -- objects in prose and in code fences

A text from a clipboard has its object in the middle of prose, or in a code fence.  Prose without
braces and backticks hides nothing, and braces inside of the strings of the object are between its
own.  Backticks inside of its strings are taken for a fence, though, wherever the text does not
begin with the object itself:

* in prose (`Cut`) everything up to the next line is left out, and with it the object;
* in a code fence the object ends where the fence in the string begins.

A strict reader refuses what is left in the second case, because nothing shorter than a written
object is one; it is only pieced together that it becomes another object (`embedded_object`).
-/
import PageDesign.Proofs.Json.Line
import PageDesign.Proofs.Json.Prefix
import PageDesign.Proofs.Json.Repaired

namespace PageDesign.Json

open Text

/-! ## Texts around an object -/

/-- A text in a code fence whose first line may name a language, with prose around it. -/
def fenced (p lang t q : String) : String := p ++ "```" ++ lang ++ "\n" ++ t ++ "\n```" ++ q

/-- An object in prose is not found if something stands in front of it, three backticks stand in one
of its strings, and the prose behind it goes on in another line. -/
def Cut (p t q : String) : Prop :=
  isBlankText p = false ∧ occurs fence t.toList = true ∧ '\n' ∈ dropEndWhile isBlank q.toList

instance (p t q : String) : Decidable (Cut p t q) := inferInstanceAs (Decidable (_ ∧ _ ∧ _))

/-- No brace opens, and nothing looks like a fence. -/
def QuietFront (cs : List Char) : Prop := '\x7b' ∉ cs ∧ '\x60' ∉ cs

/-- No brace closes, and nothing looks like a fence. -/
def QuietBack (cs : List Char) : Prop := '\x7d' ∉ cs ∧ '\x60' ∉ cs

instance (cs : List Char) : Decidable (QuietFront cs) := inferInstanceAs (Decidable (_ ∧ _))

instance (cs : List Char) : Decidable (QuietBack cs) := inferInstanceAs (Decidable (_ ∧ _))

/-! ## Spans -/

/-- What is found in a text that begins with a brace is the front of it. -/
theorem prefix_of_objectSpan? {inner span : List Char}
    (h : objectSpan? ('\x7b' :: inner) = some span) :
    span <+: '\x7b' :: inner ∧ ∃ rest, span = '\x7b' :: rest := by
  rw [objectSpan?, List.dropWhile_cons_of_neg (by decide)] at h
  have hstart := dropEndWhile_prefix (· != '\x7d') ('\x7b' :: inner)
  split at h
  next => cases h
  next hsome =>
    cases h
    refine ⟨hstart, ?_⟩
    cases hspan : dropEndWhile (· != '\x7d') ('\x7b' :: inner) with
    | nil => exact absurd hspan hsome
    | cons c rest =>
        rw [hspan] at hstart
        exact ⟨rest, by rw [(List.cons_prefix_cons.mp hstart).1]⟩

theorem objectSpan?_eq_none {cs : List Char} (h : '\x7d' ∉ cs) : objectSpan? cs = none := by
  have hnone : dropEndWhile (· != '\x7d') (cs.dropWhile (· != '\x7b')) = [] := by
    refine dropEndWhile_eq_nil fun c hc => ?_
    rw [bne_iff_ne]
    rintro rfl
    exact h (List.dropWhile_subset _ hc)
  rw [objectSpan?, hnone]

/-! ## Fences -/

section Strip

variable {p t q : List Char}

theorem split_fence_none (hp : '\x60' ∉ p) (hq : '\x60' ∉ q)
    (ht : splitAtFirst? fence t = none) : splitAtFirst? fence (p ++ t ++ q) = none := by
  have hback : ∀ c ∈ fence, c ∉ q := by
    intro c hc
    rwa [List.eq_of_mem_replicate hc]
  refine splitAtFirst?_append_eq_none ?_ hback
  rw [fence, List.replicate_succ, splitAtFirst?_append_left hp, ← List.replicate_succ, ← fence, ht]
  rfl

theorem split_fence_some {front behind : List Char} (hp : '\x60' ∉ p)
    (ht : splitAtFirst? fence t = some (front, behind)) (q : List Char) :
    splitAtFirst? fence (p ++ t ++ q) = some (p ++ front, behind ++ q) := by
  refine splitAtFirst?_append ?_ q
  rw [fence, List.replicate_succ, splitAtFirst?_append_left hp, ← List.replicate_succ, ← fence, ht]
  rfl

theorem notMem_behind {c : Char} {front behind : List Char} (hc : c ∉ t)
    (ht : splitAtFirst? fence t = some (front, behind)) : c ∉ behind := by
  intro hmem
  refine hc ?_
  rw [eq_append_of_splitAtFirst? ht]
  exact List.mem_append_right _ (List.mem_append_right _ hmem)

/-- Without a line break behind a fence, the text is left as it is. -/
theorem stripFence_of_split {cs front behind : List Char}
    (h : splitAtFirst? fence cs = some (front, behind)) (hline : '\n' ∉ behind) :
    stripFence cs = cs := by
  rw [stripFence, h]
  simp only [splitAtFirst?_eq_none hline]

/-- With one, what is left begins in the next line. -/
theorem stripFence_of_line {cs front rest body : List Char}
    (h : splitAtFirst? fence cs = some (front, rest ++ '\n' :: body)) (hrest : '\n' ∉ rest) :
    stripFence cs = ((splitAtFirst? fence body).map (·.1)).getD body := by
  have hline : splitAtFirst? ['\n'] (rest ++ '\n' :: body) = some (rest, body) :=
    splitAtFirst?_of_notMem hrest [] body
  rw [stripFence, h]
  simp only [hline]
  cases splitAtFirst? fence body <;> rfl

end Strip

/-! ## Candidates -/

section Candidate

variable {s : String} {p t q : List Char}

theorem QuietFront.dropWhile (h : QuietFront p) : QuietFront (p.dropWhile isBlank) :=
  ⟨fun hmem => h.1 (List.dropWhile_subset _ hmem), fun hmem => h.2 (List.dropWhile_subset _ hmem)⟩

theorem QuietBack.dropEndWhile (h : QuietBack q) : QuietBack (dropEndWhile isBlank q) :=
  ⟨fun hmem => h.1 (mem_of_mem_dropEndWhile hmem), fun hmem => h.2 (mem_of_mem_dropEndWhile hmem)⟩

/-- Quiet prose does not begin with a brace. -/
theorem QuietFront.head_ne (h : QuietFront p) (hp : p ≠ []) (cs : List Char) :
    (p ++ cs).head? ≠ some '\x7b' := by
  obtain ⟨c, rest, rfl⟩ := List.exists_cons_of_ne_nil hp
  intro hhead
  cases hhead
  exact h.1 List.mem_cons_self

/-- Behind prose, it is looked for in what the fence leaves. -/
theorem candidate_prose (h : s.toList = p ++ t ++ q) (ht : Braced t) (hp : QuietFront p)
    (hprose : ¬ ∀ c ∈ p, isBlank c = true) :
    candidate? s =
      objectSpan? (stripFence (p.dropWhile isBlank ++ t ++ dropEndWhile isBlank q)) := by
  have hsome : p.dropWhile isBlank ≠ [] := mt List.dropWhile_eq_nil_iff.mp hprose
  have hhead := hp.dropWhile.head_ne hsome (t ++ dropEndWhile isBlank q)
  rw [← List.append_assoc] at hhead
  rw [candidate?, h, trimList_braced ht, if_neg hhead]

/-- Behind prose, an object without a fence in its strings is found, and any other one if no line
follows. -/
theorem candidate_kept (h : s.toList = p ++ t ++ q) (ht : Braced t) (hp : QuietFront p)
    (hq : QuietBack q) (hline : '\n' ∉ t) (hprose : ¬ ∀ c ∈ p, isBlank c = true)
    (hkept : splitAtFirst? fence t = none ∨ '\n' ∉ dropEndWhile isBlank q) :
    candidate? s = some t := by
  suffices hstrip : stripFence (p.dropWhile isBlank ++ t ++ dropEndWhile isBlank q) =
      p.dropWhile isBlank ++ t ++ dropEndWhile isBlank q by
    rw [candidate_prose h ht hp hprose, hstrip]
    exact objectSpan?_of_braced ht hp.dropWhile.1 hq.dropEndWhile.1
  cases hsplit : splitAtFirst? fence t with
  | none => rw [stripFence, split_fence_none hp.dropWhile.2 hq.dropEndWhile.2 hsplit]
  | some found =>
      obtain ⟨front, behind⟩ := found
      have hq' := hkept.resolve_left (by simp [hsplit])
      refine stripFence_of_split (split_fence_some hp.dropWhile.2 hsplit _) ?_
      exact List.not_mem_append (notMem_behind hline hsplit) hq'

/-- An object that is cut is not found. -/
theorem candidate_cut (h : s.toList = p ++ t ++ q) (ht : Braced t) (hp : QuietFront p)
    (hq : QuietBack q) (hline : '\n' ∉ t) (hprose : ¬ ∀ c ∈ p, isBlank c = true)
    {front behind : List Char} (hsplit : splitAtFirst? fence t = some (front, behind))
    (hq' : '\n' ∈ dropEndWhile isBlank q) : candidate? s = none := by
  obtain ⟨rest, body, heq, hrest⟩ := List.eq_append_cons_of_mem hq'
  have hquiet := hq.dropEndWhile
  rw [heq] at hquiet
  have hbody : '\x60' ∉ body := fun hmem =>
    hquiet.2 (List.mem_append_right _ (List.mem_cons_of_mem _ hmem))
  have hbehind : '\n' ∉ behind ++ rest := List.not_mem_append (notMem_behind hline hsplit) hrest
  have hfirst := split_fence_some hp.dropWhile.2 hsplit (dropEndWhile isBlank q)
  rw [heq, ← List.append_assoc behind] at hfirst
  have hnone : splitAtFirst? fence body = none := splitAtFirst?_eq_none hbody _
  rw [candidate_prose h ht hp hprose, heq, stripFence_of_line hfirst hbehind, hnone]
  exact objectSpan?_eq_none fun hmem =>
    hquiet.1 (List.mem_append_right _ (List.mem_cons_of_mem _ hmem))

/-! ## Code fences -/

/-- A text in a code fence, the fence with its lines. -/
def block (lang t : List Char) : List Char := fence ++ (lang ++ '\n' :: (t ++ '\n' :: fence))

/-- In a code fence, the object is looked for up to the first fence behind the first line. -/
theorem candidate_block {lang : List Char} (h : s.toList = p ++ block lang t ++ q)
    (hp : QuietFront p) (hlang : '\n' ∉ lang) :
    candidate? s = objectSpan? (((splitAtFirst? fence
      (t ++ '\n' :: (fence ++ dropEndWhile isBlank q))).map (·.1)).getD
        (t ++ '\n' :: (fence ++ dropEndWhile isBlank q))) := by
  have hquotes : block lang t = '\x60' :: ('\x60' :: '\x60' :: (lang ++
      '\n' :: (t ++ ['\n', '\x60', '\x60'])) ++ ['\x60']) := by
    simp [block, fence]
  have htrim : trimList isBlank s.toList =
      p.dropWhile isBlank ++ block lang t ++ dropEndWhile isBlank q := by
    rw [h, hquotes]
    exact trimList_append p _ q (by decide) (by decide)
  have hhead : (p.dropWhile isBlank ++ block lang t ++ dropEndWhile isBlank q).head? ≠
      some '\x7b' := by
    rw [List.append_assoc]
    cases hfront : p.dropWhile isBlank with
    | nil => simp [block, fence]
    | cons c rest =>
        rw [← hfront]
        exact hp.dropWhile.head_ne (by simp [hfront]) _
  have hopen : splitAtFirst? fence (block lang t) =
      some ([], lang ++ '\n' :: (t ++ '\n' :: fence)) :=
    splitAtFirst?_of_prefix (by decide) _
  have hfirst := split_fence_some hp.dropWhile.2 hopen (dropEndWhile isBlank q)
  rw [List.append_assoc lang, List.cons_append, List.append_assoc t, List.cons_append] at hfirst
  rw [candidate?, htrim, if_neg hhead, stripFence_of_line hfirst hlang]

/-- An object without a fence in its strings is found in a code fence. -/
theorem candidate_block_kept {lang : List Char} (h : s.toList = p ++ block lang t ++ q)
    (ht : Braced t) (hp : QuietFront p) (hlang : '\n' ∉ lang)
    (hnone : splitAtFirst? fence t = none) : candidate? s = some t := by
  have hclose : splitAtFirst? fence (fence ++ dropEndWhile isBlank q) =
      some ([], dropEndWhile isBlank q) :=
    splitAtFirst?_of_prefix (by decide) _
  have hspan : objectSpan? ([] ++ t ++ ['\n']) = some t :=
    objectSpan?_of_braced ht List.not_mem_nil (by decide)
  rw [candidate_block h hp hlang, splitAtFirst?_append_cons hnone (by decide), hclose]
  exact hspan

/-- Of another one, only what stands in front of the first fence in its strings is looked at. -/
theorem candidate_block_cut {lang : List Char} (h : s.toList = p ++ block lang t ++ q)
    (hp : QuietFront p) (hlang : '\n' ∉ lang) {front behind : List Char}
    (hsplit : splitAtFirst? fence t = some (front, behind)) :
    candidate? s = objectSpan? front := by
  rw [candidate_block h hp hlang, splitAtFirst?_append hsplit]
  rfl

end Candidate

/-! ## What is found -/

theorem extractObject_congr {s s' : String} (h : candidate? s = candidate? s') (repair : Bool) :
    extractObject s repair = extractObject s' repair := by
  rw [extractObject, extractObject, h]

theorem extractObject_of_none {s : String} (h : candidate? s = none) (repair : Bool) :
    extractObject s repair = .error .noObject := by
  rw [extractObject, h]
  rfl

/-- A written object that is found as a whole is read back if it keeps the limits of texts, and else
it is not. -/
theorem extractObject_of_candidate {s : String} {ms : Members} {indent : Int}
    (h : candidate? s = some ((obj ms).dump indent).toList) (repair : Bool) :
    extractObject s repair = .ok ms ↔ Everywhere Dialect.strict.Takes (.obj ms) := by
  refine ⟨takes_of_extractObject, fun htakes => ?_⟩
  have hbare : extractObject ("" ++ (obj ms).dump indent ++ "") repair = .ok ms :=
    extractObject_of_takes htakes indent rfl rfl repair
  rw [← hbare]
  refine extractObject_congr (h.trans ?_) repair
  exact (candidate_dump ms indent rfl rfl).symm

/-- The front of a text that begins with a brace is looked at as a text of its own. -/
theorem candidate_front {inner : List Char} :
    candidate? (String.ofList ('\x7b' :: inner)) = objectSpan? ('\x7b' :: inner) := by
  have hblank : ∀ c, isBlank c = true → (c != '\x7d') = true := by
    intro c hc
    rw [bne_iff_ne]
    rintro rfl
    exact absurd hc (by decide)
  have hkept : dropEndWhile isBlank ('\x7b' :: inner) = '\x7b' :: dropEndWhile isBlank inner :=
    dropEndWhile_append_cons [] (by decide) inner
  have htrim : trimList isBlank ('\x7b' :: inner) = '\x7b' :: dropEndWhile isBlank inner := by
    rw [trimList, List.dropWhile_cons_of_neg (by decide), hkept]
  rw [candidate?, String.toList_ofList, htrim]
  simp only [List.head?_cons, if_true, objectSpan?]
  rw [List.dropWhile_cons_of_neg (by decide), List.dropWhile_cons_of_neg (by decide), ← hkept,
    dropEndWhile_dropEndWhile hblank]

theorem exists_cons_of_split {t front behind : List Char} (ht : Braced t)
    (hsplit : splitAtFirst? fence t = some (front, behind)) : ∃ inner, front = '\x7b' :: inner := by
  obtain ⟨mid, rfl⟩ := ht
  have heq := eq_append_of_splitAtFirst? hsplit
  cases front with
  | nil => cases heq
  | cons c inner => exact ⟨inner, by rw [(List.cons.inj heq).1]⟩

/-- In front of a fence in one of the strings of a written object, no object is read. -/
theorem extractObject_front_ne_ok {ms : Members} {indent : Int} {front behind : List Char}
    (hsplit : splitAtFirst? fence ((obj ms).dump indent).toList = some (front, behind))
    (ns : Members) : extractObject (String.ofList front) false ≠ .ok ns := by
  intro hok
  obtain ⟨inner, rfl⟩ := exists_cons_of_split (braced_dump ms indent) hsplit
  obtain ⟨span, hspan, hparse⟩ := extractObject_strict_iff.mp hok
  rw [candidate_front] at hspan
  obtain ⟨⟨tail, htail⟩, rest, rfl⟩ := prefix_of_objectSpan? hspan
  have hwhole : ((obj ms).dump indent).toList = '\x7b' :: rest ++ (tail ++ (fence ++ behind)) := by
    rw [eq_append_of_splitAtFirst? hsplit, ← htail, List.append_assoc]
  have hnone := parseList_front hwhole (by simp [fence])
  rw [hnone] at hparse
  cases hparse

/-! ## Objects in prose and in code fences -/

/-- A written object between prose that has no brace of its kind and no backtick is found and read
back exactly if it keeps the limits of texts and is not cut, and if it is cut there is nothing to be
found.  In a code fence it is read back if none of its strings has a fence, and exactly then if
nothing is pieced together; otherwise only what stands in front of that fence is looked at. -/
theorem embedded_object {p q lang : String} (hp : QuietFront p.toList) (hq : QuietBack q.toList)
    (hlang : '\n' ∉ lang.toList) (ms : Members) :
    let t := (obj ms).dump
    let kept := Everywhere Dialect.strict.Takes (.obj ms)
    (∀ repair, extractObject (p ++ t ++ q) repair = .ok ms ↔ kept ∧ ¬ Cut p t q) ∧
    (∀ repair, Cut p t q → extractObject (p ++ t ++ q) repair = .error .noObject) ∧
    (occurs fence t.toList = false → ∀ repair,
      extractObject (fenced p lang t q) repair = .ok ms ↔ kept) ∧
    ∀ front behind, splitAtFirst? fence t.toList = some (front, behind) →
      (∀ repair,
        extractObject (fenced p lang t q) repair = extractObject (String.ofList front) repair) ∧
      ∀ ns, extractObject (fenced p lang t q) false ≠ .ok ns := by
  intro t kept
  have ht : Braced t.toList := braced_dump ms 0
  have hline : '\n' ∉ t.toList := fun hmem =>
    absurd (uncontrolled_dump (.obj ms) '\n' hmem) (by decide)
  have hprose : (p ++ t ++ q).toList = p.toList ++ t.toList ++ q.toList := by
    rw [String.toList_append, String.toList_append]
  have hfenced : (fenced p lang t q).toList =
      p.toList ++ block lang.toList t.toList ++ q.toList := by
    simp [fenced, block, fence]
  have hcut : ∀ repair, Cut p t q → extractObject (p ++ t ++ q) repair = .error .noObject := by
    rintro repair ⟨hfront, hoccurs, hbehind⟩
    have hsome : ¬ ∀ c ∈ p.toList, isBlank c = true := by
      rw [← List.all_eq_true, ← isBlankText, hfront]
      exact Bool.false_ne_true
    obtain ⟨⟨front, behind⟩, hsplit⟩ := Option.isSome_iff_exists.mp hoccurs
    exact extractObject_of_none (candidate_cut hprose ht hp hq hline hsome hsplit hbehind) repair
  refine ⟨fun repair => ?_, hcut, fun hnone repair => ?_, fun front behind hsplit => ?_⟩
  · by_cases hlost : Cut p t q
    · simp [hcut repair hlost, hlost]
    · suffices hcandidate : candidate? (p ++ t ++ q) = some t.toList by
        rw [extractObject_of_candidate hcandidate, and_iff_left hlost]
      by_cases hblank : ∀ c ∈ p.toList, isBlank c = true
      · exact candidate_bare hprose ht hblank hq.1
      · refine candidate_kept hprose ht hp hq hline hblank ?_
        rw [or_iff_not_imp_left]
        intro hsplit hbehind
        have hoccurs : occurs fence t.toList = true := Option.isSome_iff_ne_none.mpr hsplit
        have hfront : isBlankText p = false := by
          rwa [isBlankText, ← Bool.not_eq_true, List.all_eq_true]
        exact hlost ⟨hfront, hoccurs, hbehind⟩
  · have hsplit : splitAtFirst? fence t.toList = none := by
      rwa [occurs, Option.isSome_eq_false_iff, Option.isNone_iff_eq_none] at hnone
    exact extractObject_of_candidate (candidate_block_kept hfenced ht hp hlang hsplit) repair
  · obtain ⟨inner, rfl⟩ := exists_cons_of_split ht hsplit
    have hfront := (candidate_block_cut hfenced hp hlang hsplit).trans candidate_front.symm
    refine ⟨extractObject_congr hfront, fun ns => ?_⟩
    rw [extractObject_congr hfront]
    exact extractObject_front_ne_ok hsplit ns

/-- Braces in strings do not matter, and neither do three backticks if the prose behind the object
ends in the same line. -/
theorem embedded_object_sample :
    let ms : Members := [("a", .obj [("b", .int 1)]), ("c", .str "\x7d\x7b")]
    let ns : Members := [("c", .str "```")]
    QuietFront "Copied:\n".toList ∧ QuietBack "\nthanks".toList ∧ QuietBack " thanks\n".toList ∧
      ∀ repair, extractObject ("Copied:\n" ++ (obj ms).dump ++ "\nthanks") repair = .ok ms ∧
        extractObject (fenced "Copied:\n" "json" (obj ms).dump "\nthanks") repair = .ok ms ∧
        extractObject ("Copied:\n" ++ (obj ns).dump ++ " thanks\n") repair = .ok ns := by
  intro ms ns
  have hp : QuietFront "Copied:\n".toList := by decide
  have hq : QuietBack "\nthanks".toList := by decide
  have hq' : QuietBack " thanks\n".toList := by decide
  have hscalar {v : Json} (hv : v.parts = []) (h : Dialect.strict.Takes v) :
      Everywhere Dialect.strict.Takes v := (everywhere_scalar hv).mpr h
  have hms : Everywhere Dialect.strict.Takes (.obj ms) := by
    simp only [ms, everywhere_obj, List.forall_mem_cons]
    exact ⟨by simp [Dialect.Takes, Keyed.names],
      ⟨by simp [Dialect.Takes, Keyed.names], hscalar rfl (takesInt_of_fitsWord rfl), by simp⟩,
      hscalar rfl trivial, by simp⟩
  have hns : Everywhere Dialect.strict.Takes (.obj ns) := by
    simp only [ns, everywhere_obj, List.forall_mem_cons]
    exact ⟨by simp [Dialect.Takes, Keyed.names], hscalar rfl trivial, by simp⟩
  have hclear : occurs fence ((obj ms).dump).toList = false := by decide +kernel
  obtain ⟨hprose, -, hblock, -⟩ := @embedded_object _ _ "json" hp hq (by decide) ms
  obtain ⟨hline, -⟩ := @embedded_object _ _ "" hp hq' (by decide) ns
  refine ⟨hp, hq, hq', fun repair => ⟨(hprose repair).mpr ⟨hms, ?_⟩, (hblock hclear repair).mpr hms,
    (hline repair).mpr ⟨hns, ?_⟩⟩⟩
  · exact fun hcut => absurd hcut.2.1 (by simp [hclear])
  · exact fun hcut => absurd hcut.2.2 (by decide)

/-- An object with three backticks in a string: in prose over several lines there is nothing to be
found, and in a code fence another object is pieced together from the front of it. -/
theorem embedded_object_lost :
    QuietFront "Copied:\n".toList ∧ QuietBack "\nthanks".toList ∧
      extractObject ("Copied:\n" ++ (obj [("c", .str "```")]).dump ++ "\nthanks") true =
        .error .noObject ∧
      (extractObject (fenced "Copied:\n" "json"
          (obj [("a", .obj [("b", .int 1)]), ("c", .str "```")]).dump "\nthanks") true).map
          (fun ns => (obj ns).dump) =
        .ok "\x7b\"a\":\x7b\"b\":1\x7d\x7d" :=
  ⟨by decide, by decide, extractObject_of_none (by decide +kernel) true, by decide +kernel⟩

end PageDesign.Json
