/-
# PageDesign.Proofs.Json.Reading -- written values read back

A written value is read back wherever something follows that cannot go on with a number, in
every style whose separators are a comma and a colon with white space behind them
(`readsBack`).  All depends on the double precision numbers: a style writes some of them in a
form that is read as something else, or not at all.  What is read for each number is a
parameter (`Style.Reads`), and `mapFloats?` carries it through a value.

The tight family reads back all finite numbers and reads the others as nothing
(`reads_tight`); the spaced family reads back all finite numbers, and its names for the others
are refused by the strict dialect (`reads_spaced`).
-/
import PageDesign.Proofs.Json.Number
import PageDesign.Proofs.Json.Text

namespace PageDesign.Json

/-! ## Numbers inside a value -/

mutual

/-- A value with something else for each of its double precision numbers, if all have
something. -/
def mapFloats? (g : Binary64 → Option Json) : Json → Option Json
  | float x => g x
  | arr vs => (mapFloatsItems? g vs).map arr
  | obj ms => (mapFloatsMembers? g ms).map obj
  | v => some v

/-- `mapFloats?` for the items of an array. -/
def mapFloatsItems? (g : Binary64 → Option Json) : List Json → Option (List Json)
  | [] => some []
  | v :: vs => do return (← mapFloats? g v) :: (← mapFloatsItems? g vs)

/-- `mapFloats?` for the members of an object. -/
def mapFloatsMembers? (g : Binary64 → Option Json) :
    List (String × Json) → Option (List (String × Json))
  | [] => some []
  | (k, v) :: ms => do return (k, ← mapFloats? g v) :: (← mapFloatsMembers? g ms)

end

/-! ## White space -/

/-- Characters that are white space. -/
def AreGaps (cs : List Char) : Prop := ∀ c ∈ cs, isGap c = true

theorem skipGap_append {gap : List Char} (hgap : AreGaps gap) (cs : List Char) :
    skipGap (gap ++ cs) = skipGap cs :=
  List.dropWhile_append_of_pos hgap

theorem skipGap_cons {c : Char} (hc : isGap c = false) (cs : List Char) :
    skipGap (c :: cs) = c :: cs := by
  rw [skipGap, List.dropWhile_cons_of_neg (by simp [hc])]

theorem areGaps_lineBreak (st : Style) (depth : Nat) : AreGaps (st.lineBreak depth).toList := by
  rw [Style.lineBreak]
  split
  next => simp [AreGaps]
  next width =>
    intro c hc
    simp only [String.toList_append, String.toList_ofList, List.mem_append] at hc
    rcases hc with hc | hc
    · rw [List.mem_singleton.mp hc]
      rfl
    · rw [List.eq_of_mem_replicate hc]
      rfl

theorem readValue_gap (dialect : Dialect) (fuel : Nat) {gap : List Char} (hgap : AreGaps gap)
    (cs : List Char) : readValue dialect fuel (gap ++ cs) = readValue dialect fuel cs := by
  cases fuel with
  | zero => rfl
  | succ fuel => rw [readValue, readValue, skipGap_append hgap]

theorem readItems_gap (dialect : Dialect) (fuel : Nat) {gap : List Char} (hgap : AreGaps gap)
    (cs : List Char) : readItems dialect fuel (gap ++ cs) = readItems dialect fuel cs := by
  cases fuel with
  | zero => rfl
  | succ fuel => rw [readItems, readItems, readValue_gap dialect fuel hgap]

theorem readMembers_gap (dialect : Dialect) (fuel : Nat) {gap : List Char} (hgap : AreGaps gap)
    (cs : List Char) : readMembers dialect fuel (gap ++ cs) = readMembers dialect fuel cs := by
  cases fuel with
  | zero => rfl
  | succ fuel => rw [readMembers, readMembers, skipGap_append hgap]

/-! ## Styles -/

/-- The characters with which no scalar begins: white space, brackets and quotes. -/
def Marks (c : Char) : Prop := isGap c = true ∨ c = '[' ∨ c = ']' ∨ c = '\x7b' ∨ c = '\x22'

instance (c : Char) : Decidable (Marks c) :=
  inferInstanceAs (Decidable (isGap c = true ∨ c = '[' ∨ c = ']' ∨ c = '\x7b' ∨ c = '\x22'))

/-- The separators of a style can be told apart, and where it has written a double precision
number, the number is read as `g` says. -/
structure Style.Reads (st : Style) (dialect : Dialect) (g : Binary64 → Option Json) : Prop where
  item : ∃ gap, AreGaps gap ∧ st.item.toList = ',' :: gap
  key : ∃ gap, AreGaps gap ∧ st.key.toList = ':' :: gap
  head : ∀ x, ∃ c cs, (renderFloat st x).toList = c :: cs ∧ ¬ Marks c
  float : ∀ x rest, EndsNumber rest →
    readScalar dialect ((renderFloat st x).toList ++ rest) = (g x).map (·, rest)

theorem not_marks_of_isDigit {c : Char} (hc : c.isDigit = true) : ¬ Marks c := by
  rintro (h | rfl | rfl | rfl | rfl)
  · simp only [isGap, Bool.or_eq_true, beq_iff_eq] at h
    rcases h with ((rfl | rfl) | rfl) | rfl <;> simp at hc
  all_goals simp at hc

theorem head_signed (negative : Bool) {cs : List Char} {c : Char} (hhead : cs.head? = some c)
    (hc : c.isDigit = true) :
    ∃ d ds, Notation.signed negative cs = d :: ds ∧ ¬ Marks d := by
  cases negative with
  | true => exact ⟨'-', cs, rfl, by decide⟩
  | false =>
      cases cs with
      | nil => cases hhead
      | cons d ds =>
          cases hhead
          exact ⟨c, ds, rfl, not_marks_of_isDigit hc⟩

theorem head_integer (n : Int) : ∃ c cs, (Notation.integer n).toList = c :: cs ∧ ¬ Marks c := by
  obtain ⟨c, hc⟩ : ∃ c, (Nat.toDigits 10 n.natAbs).head? = some c :=
    Option.isSome_iff_exists.mp (List.isSome_head?.mpr Nat.toDigits_ne_nil)
  have hdigit : c.isDigit = true := areDigits_toDigits _ c (List.mem_of_mem_head? hc)
  rw [Notation.integer, String.toList_ofList]
  exact head_signed _ hc hdigit

theorem head_shortest (style : Notation.Style) (negative : Bool) (c : Fin Binary64.codeCount) :
    ∃ d ds, (Notation.shortest style negative c.val).toList = d :: ds ∧ ¬ Marks d := by
  have hdigits : AreDigits (if c.val = 0 then (([], 0) : List Char × Int)
      else (Decimal.shortest c.val).digitsAndPoint).1 := by
    split
    next => simp [AreDigits]
    next hzero =>
      have hpos := Nat.pos_of_ne_zero hzero
      exact (digitsAndPoint_spec (Decimal.mantissa_shortest_ne_zero c.isLt hpos)).1.digits
  obtain ⟨d, hd, hdigit⟩ := head_magnitude style _ hdigits
  rw [Notation.shortest, String.toList_ofList]
  exact head_signed _ hd hdigit

/-- Finite numbers are read back by a style that keeps the point. -/
theorem readScalar_finite (dialect : Dialect) {st : Style} (hst : st.floats.keepPoint = true)
    {x : Binary64} (hx : x.isFinite = true) {rest : List Char} (hrest : EndsNumber rest) :
    readScalar dialect ((renderFloat st x).toList ++ rest) = some (Json.float x, rest) := by
  cases x with
  | finite negative c => exact readScalar_shortest dialect hst negative c hrest
  | infinite negative => cases hx
  | nan => cases hx

theorem reads_tight (dialect : Dialect) (lines : Option Nat) :
    (tight lines).Reads dialect fun x => some (if x.isFinite then .float x else .null) where
  item := ⟨[], by simp [AreGaps], by simp [tight]⟩
  key := by
    cases lines with
    | none => exact ⟨[], by simp [AreGaps], by simp [tight]⟩
    | some width => exact ⟨[' '], by simp [AreGaps, isGap], by simp [tight]⟩
  head
    | .finite negative c => head_shortest _ negative c
    | .infinite true => ⟨'n', ['u', 'l', 'l'], by simp [renderFloat, tight], by decide⟩
    | .infinite false => ⟨'n', ['u', 'l', 'l'], by simp [renderFloat, tight], by decide⟩
    | .nan => ⟨'n', ['u', 'l', 'l'], by simp [renderFloat, tight], by decide⟩
  float
    | .finite negative c, rest, hrest => readScalar_finite dialect rfl rfl hrest
    | .infinite true, _, _ => by simp [renderFloat, tight, readScalar, Binary64.isFinite]
    | .infinite false, _, _ => by simp [renderFloat, tight, readScalar, Binary64.isFinite]
    | .nan, _, _ => by simp [renderFloat, tight, readScalar, Binary64.isFinite]

theorem reads_spaced (lines : Option Nat) :
    (spaced lines).Reads .strict fun x => if x.isFinite then some (.float x) else none where
  item := by
    cases lines with
    | none => exact ⟨[' '], by simp [AreGaps, isGap], by simp [spaced]⟩
    | some width => exact ⟨[], by simp [AreGaps], by simp [spaced]⟩
  key := ⟨[' '], by simp [AreGaps, isGap], by simp [spaced]⟩
  head
    | .finite negative c => head_shortest _ negative c
    | .infinite true =>
      ⟨'-', ['I', 'n', 'f', 'i', 'n', 'i', 't', 'y'], by simp [renderFloat, spaced], by decide⟩
    | .infinite false =>
      ⟨'I', ['n', 'f', 'i', 'n', 'i', 't', 'y'], by simp [renderFloat, spaced], by decide⟩
    | .nan => ⟨'N', ['a', 'N'], by simp [renderFloat, spaced], by decide⟩
  float
    | .finite negative c, rest, hrest => readScalar_finite .strict rfl rfl hrest
    | .infinite true, _, _ => by
        simp [renderFloat, spaced, readScalar, readNegative, Binary64.isFinite, readMagnitude,
          spanDigits]
    | .infinite false, _, _ => by
        simp [renderFloat, spaced, readScalar, Binary64.isFinite, readMagnitude, spanDigits]
    | .nan, _, _ => by
        simp [renderFloat, spaced, readScalar, Binary64.isFinite, readMagnitude, spanDigits]

/-! ## Written values -/

variable {st : Style} {dialect : Dialect} {g : Binary64 → Option Json}

/-- The items of an array as they are written, without brackets. -/
def renderAllItems (st : Style) (depth : Nat) : List Json → String
  | [] => ""
  | v :: vs => render st depth v ++ renderItems st depth vs

/-- The members of an object as they are written, without braces. -/
def renderAllMembers (st : Style) (depth : Nat) : List (String × Json) → String
  | [] => ""
  | (k, v) :: ms => quote k ++ st.key ++ render st depth v ++ renderMembers st depth ms

theorem toList_render_arr (depth : Nat) {vs : List Json} (hvs : vs ≠ []) :
    (render st depth (arr vs)).toList = '[' :: ((st.lineBreak (depth + 1)).toList ++
      ((renderAllItems st (depth + 1) vs).toList ++ ((st.lineBreak depth).toList ++ [']']))) := by
  cases vs with
  | nil => exact absurd rfl hvs
  | cons v vs => simp [render, renderAllItems]

theorem toList_render_obj (depth : Nat) {ms : List (String × Json)} (hms : ms ≠ []) :
    (render st depth (obj ms)).toList = '\x7b' :: ((st.lineBreak (depth + 1)).toList ++
      ((renderAllMembers st (depth + 1) ms).toList ++
        ((st.lineBreak depth).toList ++ ['\x7d']))) := by
  cases ms with
  | nil => exact absurd rfl hms
  | cons m ms => simp [render, renderAllMembers]

theorem renderItems_eq (depth : Nat) {vs : List Json} (hvs : vs ≠ []) :
    renderItems st depth vs = st.item ++ st.lineBreak depth ++ renderAllItems st depth vs := by
  cases vs with
  | nil => exact absurd rfl hvs
  | cons v vs => simp only [renderItems, renderAllItems, String.append_assoc]

theorem renderMembers_eq (depth : Nat) {ms : List (String × Json)} (hms : ms ≠ []) :
    renderMembers st depth ms =
      st.item ++ st.lineBreak depth ++ renderAllMembers st depth ms := by
  cases ms with
  | nil => exact absurd rfl hms
  | cons m ms => simp only [renderMembers, renderAllMembers, String.append_assoc]

/-- A written value begins with a character that is neither white space nor the end of an
array. -/
theorem head_render (h : st.Reads dialect g) (depth : Nat) (v : Json) :
    ∃ c cs, (render st depth v).toList = c :: cs ∧ isGap c = false ∧ c ≠ ']' := by
  have hscalar {s : String} (hs : ∃ c cs, s.toList = c :: cs ∧ ¬ Marks c) :
      ∃ c cs, s.toList = c :: cs ∧ isGap c = false ∧ c ≠ ']' := by
    obtain ⟨c, cs, heq, hc⟩ := hs
    simp only [Marks, not_or, Bool.not_eq_true] at hc
    exact ⟨c, cs, heq, hc.1, hc.2.2.1⟩
  cases v with
  | null => exact hscalar ⟨'n', ['u', 'l', 'l'], by simp [render], by decide⟩
  | bool b =>
      cases b with
      | true => exact hscalar ⟨'t', ['r', 'u', 'e'], by simp [render], by decide⟩
      | false => exact hscalar ⟨'f', ['a', 'l', 's', 'e'], by simp [render], by decide⟩
  | int n => exact hscalar (head_integer n)
  | float x => exact hscalar (h.head x)
  | str s => exact ⟨_, _, toList_quote s, rfl, by decide⟩
  | arr vs =>
      by_cases hvs : vs = []
      · exact ⟨'[', [']'], by simp [hvs, render], rfl, by decide⟩
      · exact ⟨'[', _, toList_render_arr depth hvs, rfl, by decide⟩
  | obj ms =>
      by_cases hms : ms = []
      · exact ⟨'\x7b', ['\x7d'], by simp [hms, render], rfl, by decide⟩
      · exact ⟨'\x7b', _, toList_render_obj depth hms, rfl, by decide⟩

theorem head_renderAllItems (h : st.Reads dialect g) (depth : Nat) {vs : List Json}
    (hvs : vs ≠ []) :
    ∃ c cs, (renderAllItems st depth vs).toList = c :: cs ∧ isGap c = false ∧ c ≠ ']' := by
  cases vs with
  | nil => exact absurd rfl hvs
  | cons v vs =>
      obtain ⟨c, cs, heq, hc⟩ := head_render h depth v
      exact ⟨c, _, by rw [renderAllItems, String.toList_append, heq, List.cons_append], hc⟩

theorem head_renderAllMembers (depth : Nat) {ms : List (String × Json)} (hms : ms ≠ []) :
    ∃ cs, (renderAllMembers st depth ms).toList = '\x22' :: cs := by
  cases ms with
  | nil => exact absurd rfl hms
  | cons m ms =>
      rw [renderAllMembers, String.toList_append, String.toList_append, String.toList_append,
        toList_quote]
      exact ⟨_, rfl⟩

/-! ## Reading what was written -/

/-- What stands behind white space ends a number if it does so by itself. -/
theorem EndsNumber.gap {gap rest : List Char} (hgap : AreGaps gap) (hrest : EndsNumber rest) :
    EndsNumber (gap ++ rest) := by
  cases gap with
  | nil => exact hrest
  | cons c cs =>
      intro d hd
      obtain rfl : c = d := by simpa using hd
      have hc : isGap c = true := hgap c (by simp)
      simp only [isGap, Bool.or_eq_true, beq_iff_eq] at hc
      rcases hc with ((rfl | rfl) | rfl) | rfl <;> decide

theorem endsNumber_cons {c : Char} (hc : c.isDigit = false ∧ c ≠ '.' ∧ c ≠ 'e' ∧ c ≠ 'E')
    (rest : List Char) : EndsNumber (c :: rest) := by
  intro d hd
  obtain rfl : c = d := by simpa using hd
  exact hc

/-- What begins with no mark is read as a scalar. -/
theorem readValue_scalar (fuel : Nat) {cs : List Char} (hcs : ∃ c ds, cs = c :: ds ∧ ¬ Marks c)
    (rest : List Char) :
    readValue dialect (fuel + 1) (cs ++ rest) = readScalar dialect (cs ++ rest) := by
  obtain ⟨c, ds, rfl, hc⟩ := hcs
  simp only [Marks, not_or, Bool.not_eq_true] at hc
  obtain ⟨hgap, hbracket, -, hbrace, hquote⟩ := hc
  rw [List.cons_append, readValue, skipGap_cons hgap]
  split
  next heq => exact absurd (List.cons.inj heq).1 hbracket
  next heq => exact absurd (List.cons.inj heq).1 hbrace
  next heq => exact absurd (List.cons.inj heq).1 hquote
  next => rfl

theorem readValue_quote (fuel : Nat) (s : String) (rest : List Char) :
    readValue dialect (fuel + 1) ((quote s).toList ++ rest) = some (str s, rest) := by
  rw [toList_quote, List.cons_append, List.append_assoc, readValue, skipGap_cons rfl]
  simp only [List.singleton_append, readText_quote, Option.map_some, String.ofList_toList]

/-- An array that does not end at once. -/
theorem readValue_arr (fuel : Nat) {gap cs : List Char} (hgap : AreGaps gap) {c : Char}
    (hc : isGap c = false) (hend : c ≠ ']') :
    readValue dialect (fuel + 1) ('[' :: (gap ++ c :: cs)) =
      (readItems dialect fuel (c :: cs)).map fun (vs, left) => (arr vs, left) := by
  rw [readValue, skipGap_cons rfl]
  simp only [skipGap_append hgap, skipGap_cons hc]
  split
  next heq => exact absurd (List.cons.inj heq).1 hend
  next => rfl

/-- An object that does not end at once. -/
theorem readValue_obj (fuel : Nat) {gap cs : List Char} (hgap : AreGaps gap) :
    readValue dialect (fuel + 1) ('\x7b' :: (gap ++ '\x22' :: cs)) =
      (readMembers dialect fuel ('\x22' :: cs)).map fun (ms, left) => (obj ms, left) := by
  rw [readValue, skipGap_cons rfl]
  simp only [skipGap_append hgap, skipGap_cons (c := '\x22') rfl]
  rfl

/-- The last item of an array. -/
theorem readItems_last {fuel : Nat} {cs rest gap : List Char} {v : Option Json}
    (hv : readValue dialect fuel cs = v.map (·, gap ++ ']' :: rest)) (hgap : AreGaps gap) :
    readItems dialect (fuel + 1) cs = v.map ([·], rest) := by
  rw [readItems, hv]
  cases v with
  | none => rfl
  | some v => simp only [Option.map_some, skipGap_append hgap, skipGap_cons (c := ']') rfl]

/-- An item of an array with others behind it. -/
theorem readItems_cons {fuel : Nat} {cs rest : List Char} {v : Option Json}
    (hv : readValue dialect fuel cs = v.map (·, ',' :: rest)) :
    readItems dialect (fuel + 1) cs =
      v.bind fun v => (readItems dialect fuel rest).map fun (vs, left) => (v :: vs, left) := by
  rw [readItems, hv]
  cases v with
  | none => rfl
  | some v => simp only [Option.map_some, skipGap_cons (c := ',') rfl, Option.bind_some]

/-- The last member of an object. -/
theorem readMembers_last {fuel : Nat} {k : String} {cs rest gap : List Char} {v : Option Json}
    (hv : readValue dialect fuel cs = v.map (·, gap ++ '\x7d' :: rest)) (hgap : AreGaps gap) :
    readMembers dialect (fuel + 1) ((quote k).toList ++ ':' :: cs) =
      v.map fun v => ([(k, v)], rest) := by
  rw [toList_quote, List.cons_append, List.append_assoc, readMembers, skipGap_cons rfl]
  simp only [List.singleton_append, readText_quote, skipGap_cons (c := ':') rfl, hv]
  cases v with
  | none => rfl
  | some v =>
      simp only [Option.map_some, skipGap_append hgap, skipGap_cons (c := '\x7d') rfl,
        String.ofList_toList]

/-- A member of an object with others behind it. -/
theorem readMembers_cons {fuel : Nat} {k : String} {cs rest : List Char} {v : Option Json}
    (hv : readValue dialect fuel cs = v.map (·, ',' :: rest)) :
    readMembers dialect (fuel + 1) ((quote k).toList ++ ':' :: cs) =
      v.bind fun v =>
        (readMembers dialect fuel rest).map fun (ms, left) => ((k, v) :: ms, left) := by
  rw [toList_quote, List.cons_append, List.append_assoc, readMembers, skipGap_cons rfl]
  simp only [List.singleton_append, readText_quote, skipGap_cons (c := ':') rfl, hv]
  cases v with
  | none => rfl
  | some v =>
      simp only [Option.map_some, skipGap_cons (c := ',') rfl, Option.bind_some,
        String.ofList_toList]

/-- With some fuel, what was written is read back wherever it is short enough, with what `g`
says for its double precision numbers. -/
structure ReadsBack (st : Style) (dialect : Dialect) (g : Binary64 → Option Json) (fuel : Nat) :
    Prop where
  value : ∀ (depth : Nat) (v : Json) (rest : List Char),
    2 * (render st depth v).toList.length ≤ fuel → EndsNumber rest →
    readValue dialect fuel ((render st depth v).toList ++ rest) = (mapFloats? g v).map (·, rest)
  items : ∀ (depth : Nat) (vs : List Json) (gap rest : List Char),
    2 * (renderAllItems st depth vs).toList.length < fuel → vs ≠ [] → AreGaps gap →
    readItems dialect fuel ((renderAllItems st depth vs).toList ++ (gap ++ ']' :: rest)) =
      (mapFloatsItems? g vs).map (·, rest)
  members : ∀ (depth : Nat) (ms : List (String × Json)) (gap rest : List Char),
    2 * (renderAllMembers st depth ms).toList.length < fuel → ms ≠ [] → AreGaps gap →
    readMembers dialect fuel ((renderAllMembers st depth ms).toList ++ (gap ++ '\x7d' :: rest)) =
      (mapFloatsMembers? g ms).map (·, rest)

namespace ReadsBack

variable {fuel : Nat}

theorem zero (h : st.Reads dialect g) : ReadsBack st dialect g 0 where
  value depth v rest hfuel _ := by
    obtain ⟨c, cs, heq, -⟩ := head_render h depth v
    simp [heq] at hfuel
  items _ _ _ _ hfuel := absurd hfuel (Nat.not_lt_zero _)
  members _ _ _ _ hfuel := absurd hfuel (Nat.not_lt_zero _)

theorem value_succ (h : st.Reads dialect g) (ih : ReadsBack st dialect g fuel) (depth : Nat)
    (v : Json) (rest : List Char) (hfuel : 2 * (render st depth v).toList.length ≤ fuel + 1)
    (hrest : EndsNumber rest) :
    readValue dialect (fuel + 1) ((render st depth v).toList ++ rest) =
      (mapFloats? g v).map (·, rest) := by
  cases v with
  | null =>
      have hnull : (render st depth null).toList = ['n', 'u', 'l', 'l'] := by simp [render]
      rw [hnull]
      exact readValue_scalar fuel ⟨_, _, rfl, by decide⟩ rest
  | bool b =>
      cases b with
      | true =>
          have htrue : (render st depth (bool true)).toList = ['t', 'r', 'u', 'e'] := by
            simp [render]
          rw [htrue]
          exact readValue_scalar fuel ⟨_, _, rfl, by decide⟩ rest
      | false =>
          have hfalse : (render st depth (bool false)).toList = ['f', 'a', 'l', 's', 'e'] := by
            simp [render]
          rw [hfalse]
          exact readValue_scalar fuel ⟨_, _, rfl, by decide⟩ rest
  | int n =>
      rw [render, readValue_scalar fuel (head_integer n), readScalar_integer dialect n hrest]
      rfl
  | float x =>
      rw [render, readValue_scalar fuel (h.head x)]
      exact h.float x rest hrest
  | str s => exact readValue_quote fuel s rest
  | arr vs =>
      by_cases hvs : vs = []
      · subst hvs
        simp [render, readValue, skipGap, mapFloats?, mapFloatsItems?, isGap]
      · rw [toList_render_arr depth hvs] at hfuel ⊢
        simp only [List.length_cons, List.length_append] at hfuel
        -- the two brackets pay for the step from the value to its items
        have hitems := ih.items (depth + 1) vs (st.lineBreak depth).toList rest (by omega) hvs
          (areGaps_lineBreak st depth)
        obtain ⟨c, cs, heq, hc, hend⟩ := head_renderAllItems h (depth + 1) hvs
        simp only [List.cons_append, List.append_assoc, List.nil_append]
        rw [heq, List.cons_append] at hitems ⊢
        rw [readValue_arr fuel (areGaps_lineBreak st (depth + 1)) hc hend, hitems]
        simp only [mapFloats?, Option.map_map, Function.comp_def]
  | obj ms =>
      by_cases hms : ms = []
      · subst hms
        simp [render, readValue, skipGap, mapFloats?, mapFloatsMembers?, isGap]
      · rw [toList_render_obj depth hms] at hfuel ⊢
        simp only [List.length_cons, List.length_append] at hfuel
        have hmembers := ih.members (depth + 1) ms (st.lineBreak depth).toList rest (by omega) hms
          (areGaps_lineBreak st depth)
        obtain ⟨cs, heq⟩ := head_renderAllMembers (depth + 1) hms
        simp only [List.cons_append, List.append_assoc, List.nil_append]
        rw [heq, List.cons_append] at hmembers ⊢
        rw [readValue_obj fuel (areGaps_lineBreak st (depth + 1)), hmembers]
        simp only [mapFloats?, Option.map_map, Function.comp_def]

theorem items_succ (h : st.Reads dialect g) (ih : ReadsBack st dialect g fuel) (depth : Nat)
    (vs : List Json) (gap rest : List Char)
    (hfuel : 2 * (renderAllItems st depth vs).toList.length < fuel + 1) (hne : vs ≠ [])
    (hgap : AreGaps gap) :
    readItems dialect (fuel + 1) ((renderAllItems st depth vs).toList ++ (gap ++ ']' :: rest)) =
      (mapFloatsItems? g vs).map (·, rest) := by
  cases vs with
  | nil => exact absurd rfl hne
  | cons v vs =>
      by_cases hvs : vs = []
      · subst hvs
        have hone : renderAllItems st depth [v] = render st depth v := String.append_empty
        rw [hone] at hfuel ⊢
        have hv := ih.value depth v (gap ++ ']' :: rest) (by omega)
          (.gap hgap (endsNumber_cons (by decide) rest))
        rw [readItems_last hv hgap, mapFloatsItems?, mapFloatsItems?]
        cases mapFloats? g v <;> rfl
      · obtain ⟨between, hbetween, hitem⟩ := h.item
        rw [renderAllItems, renderItems_eq depth hvs] at hfuel ⊢
        simp only [String.toList_append, hitem, List.length_append, List.length_cons] at hfuel
        simp only [String.toList_append, hitem, List.append_assoc, List.cons_append]
        -- the comma pays for the step to the other items
        have hv := ih.value depth v
          (',' :: (between ++ ((st.lineBreak depth).toList ++
            ((renderAllItems st depth vs).toList ++ (gap ++ ']' :: rest))))) (by omega)
          (endsNumber_cons (by decide) _)
        have hvs := ih.items depth vs gap rest (by omega) hvs hgap
        rw [readItems_cons hv, readItems_gap dialect fuel hbetween,
          readItems_gap dialect fuel (areGaps_lineBreak st depth), hvs, mapFloatsItems?]
        cases mapFloats? g v with
        | none => rfl
        | some w => cases mapFloatsItems? g vs <;> rfl

theorem members_succ (h : st.Reads dialect g) (ih : ReadsBack st dialect g fuel) (depth : Nat)
    (ms : List (String × Json)) (gap rest : List Char)
    (hfuel : 2 * (renderAllMembers st depth ms).toList.length < fuel + 1) (hne : ms ≠ [])
    (hgap : AreGaps gap) :
    readMembers dialect (fuel + 1)
        ((renderAllMembers st depth ms).toList ++ (gap ++ '\x7d' :: rest)) =
      (mapFloatsMembers? g ms).map (·, rest) := by
  obtain ⟨within, hwithin, hkey⟩ := h.key
  cases ms with
  | nil => exact absurd rfl hne
  | cons m ms =>
      obtain ⟨k, v⟩ := m
      by_cases hms : ms = []
      · subst hms
        have hone : renderAllMembers st depth [(k, v)] = quote k ++ st.key ++ render st depth v :=
          String.append_empty
        rw [hone] at hfuel ⊢
        simp only [String.toList_append, hkey, List.length_append, List.length_cons] at hfuel
        simp only [String.toList_append, hkey, List.append_assoc, List.cons_append]
        have hv := ih.value depth v (gap ++ '\x7d' :: rest) (by omega)
          (.gap hgap (endsNumber_cons (by decide) rest))
        rw [← readValue_gap dialect fuel hwithin] at hv
        rw [readMembers_last hv hgap, mapFloatsMembers?, mapFloatsMembers?]
        cases mapFloats? g v <;> rfl
      · obtain ⟨between, hbetween, hitem⟩ := h.item
        rw [renderAllMembers, renderMembers_eq depth hms] at hfuel ⊢
        simp only [String.toList_append, hitem, hkey, List.length_append, List.length_cons]
          at hfuel
        simp only [String.toList_append, hitem, hkey, List.append_assoc, List.cons_append]
        have hv := ih.value depth v
          (',' :: (between ++ ((st.lineBreak depth).toList ++
            ((renderAllMembers st depth ms).toList ++ (gap ++ '\x7d' :: rest))))) (by omega)
          (endsNumber_cons (by decide) _)
        have hms := ih.members depth ms gap rest (by omega) hms hgap
        rw [← readValue_gap dialect fuel hwithin] at hv
        rw [readMembers_cons hv, readMembers_gap dialect fuel hbetween,
          readMembers_gap dialect fuel (areGaps_lineBreak st depth), hms, mapFloatsMembers?]
        cases mapFloats? g v with
        | none => rfl
        | some w => cases mapFloatsMembers? g ms <;> rfl

end ReadsBack

theorem readsBack (h : st.Reads dialect g) (fuel : Nat) : ReadsBack st dialect g fuel := by
  induction fuel with
  | zero => exact .zero h
  | succ fuel ih => exact ⟨ih.value_succ h, ih.items_succ h, ih.members_succ h⟩

end PageDesign.Json
