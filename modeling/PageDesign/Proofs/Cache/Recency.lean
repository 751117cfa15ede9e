/-
# PageDesign.Proofs.Cache.Recency -- a cache keeps what was touched last

What a cache holds can be told from the calls that were made of it, without a look at its
entries.  A key is touched when it is stored, and when it is looked up while it is held.  It is
held as long as it was stored since the last clearing and fewer other keys than there is room
for were touched since (`Held`).

The order of the entries carries this.  From the last to the first they are the keys touched
since the last clearing, in the order of their last touches, cut off at the capacity
(`Mirrors.entries`).  A hit, a new entry and an entry that is stored again all put their key in
front and cut off again (`Mirrors.touch`), and the keys in front of another one are as many as
different keys were touched since (`mem_take_ranked_iff`).
-/
import Mathlib.Data.Finset.Card
import Mathlib.Data.List.TakeWhile
import PageDesign.Proofs.Cache.Entries
import PageDesign.Proofs.Digest.Fields

namespace PageDesign

/-! ## Ranks -/

section Ranked

variable {α : Type} [DecidableEq α] {k x : α} {l : List α}

/-- A list without repetitions, each item where it comes first. -/
def ranked : List α → List α
  | [] => []
  | x :: l => x :: (ranked l).filter (· ≠ x)

theorem mem_ranked : x ∈ ranked l ↔ x ∈ l := by
  induction l with
  | nil => simp [ranked]
  | cons y l ih =>
      by_cases h : x = y
      · simp [ranked, h]
      · simp [ranked, h, ih]

theorem nodup_ranked (l : List α) : (ranked l).Nodup := by
  induction l with
  | nil => exact List.nodup_nil
  | cons y l ih =>
      rw [ranked, List.nodup_cons]
      exact ⟨by simp, ih.filter _⟩

/-- What ranks in front of an item is what comes before it in the list. -/
theorem takeWhile_ranked (k : α) (l : List α) :
    (ranked l).takeWhile (· ≠ k) = ranked (l.takeWhile (· ≠ k)) := by
  induction l with
  | nil => rfl
  | cons y l ih =>
      by_cases h : y = k
      · simp [ranked, h]
      · -- the item that is filtered out is another one than the item in question
        have hsame : (fun x => !decide (x ≠ y) || decide (x ≠ k)) = fun x => decide (x ≠ k) := by
          funext x
          by_cases hx : x = y
          · simp [hx, h]
          · simp [hx]
        rw [ranked, List.takeWhile_cons_of_pos (by simpa using h),
          List.takeWhile_cons_of_pos (by simpa using h), ranked, List.takeWhile_filter, hsame, ih]

/-- The first items hold an item if fewer others stand in front of it. -/
theorem mem_take_iff {n : Nat} :
    k ∈ l.take n ↔ k ∈ l ∧ (l.takeWhile (· ≠ k)).length < n := by
  induction l generalizing n with
  | nil => simp
  | cons y l ih =>
      cases n with
      | zero => simp
      | succ n =>
          by_cases h : y = k
          · simp [h]
          · simp [ih, h, Ne.symm h]

/-- An item is among the first ranks if fewer different items come before it. -/
theorem mem_take_ranked_iff {n : Nat} :
    k ∈ (ranked l).take n ↔ k ∈ l ∧ (l.takeWhile (· ≠ k)).toFinset.card < n := by
  have hcard : ((ranked l).takeWhile (· ≠ k)).length =
      (l.takeWhile (· ≠ k)).toFinset.card := by
    rw [takeWhile_ranked, ← List.toFinset_card_of_nodup (nodup_ranked _)]
    congr 1
    ext x
    simp only [List.mem_toFinset, mem_ranked]
  rw [mem_take_iff, mem_ranked, hcard]

/-- Without repetitions, an item can be taken out before or after the end is cut off, if one more
item is left before. -/
theorem take_filter_ne (h : l.Nodup) (n : Nat) :
    (l.filter (· ≠ x)).take n = ((l.take (n + 1)).filter (· ≠ x)).take n := by
  induction l generalizing n with
  | nil => simp
  | cons y l ih =>
      obtain ⟨hy, hl⟩ := List.nodup_cons.mp h
      by_cases hyx : y = x
      · subst hyx
        have hall {m : List α} (hm : m ⊆ l) : m.filter (· ≠ y) = m := by
          rw [List.filter_eq_self]
          intro z hz
          have hzy : z ≠ y := by
            rintro rfl
            exact hy (hm hz)
          simpa using hzy
        rw [List.filter_cons_of_neg (by simp), List.take_succ_cons,
          List.filter_cons_of_neg (by simp), hall (List.Subset.refl l),
          hall (List.take_subset n l), List.take_take, Nat.min_self]
      · have hkept (m : List α) : (y :: m).filter (· ≠ x) = y :: m.filter (· ≠ x) :=
          List.filter_cons_of_pos (decide_eq_true hyx)
        cases n with
        | zero => rfl
        | succ n =>
            rw [hkept, List.take_succ_cons, List.take_succ_cons, hkept, List.take_succ_cons,
              ih hl]

/-- An item that is put in front of the first ranks is put in front of all. -/
theorem take_ranked_cons (n : Nat) :
    (ranked (k :: l)).take n = (k :: ((ranked l).take n).filter (· ≠ k)).take n := by
  cases n with
  | zero => rfl
  | succ n =>
      rw [ranked, List.take_succ_cons, List.take_succ_cons, take_filter_ne (nodup_ranked l)]

end Ranked

namespace Cache

variable {β : Type} {c : Cache β}

/-! ## Calls -/

/-- A call of a cache. -/
inductive Call (β : Type) where
  | get (fields : List String)
  | set (fields : List String) (v : β)
  | contains (fields : List String)
  | clear

/-- The fields that a call is about. -/
def Call.fields? : Call β → Option (List String)
  | .get fields | .set fields _ | .contains fields => some fields
  | .clear => none

/-- The cache after a call. -/
def call (c : Cache β) : Call β → Cache β
  | .get fields => (c.get fields).2
  | .set fields v => c.set fields v
  | .contains _ => c
  | .clear => c.clear

/-- The cache after calls, of which the last one comes first. -/
def after (c : Cache β) : List (Call β) → Cache β
  | [] => c
  | last :: past => (c.after past).call last

/-! ## What is held -/

/-- The value that was last stored under the fields since the last clearing. -/
def stored? (fields : List String) : List (Call β) → Option β
  | [] => none
  | .set other v :: past => if other = fields then some v else stored? fields past
  | .get _ :: past | .contains _ :: past => stored? fields past
  | .clear :: _ => none

/-- The fields were stored since the last clearing, and fewer other fields than there is room for
were touched since their own last touch, for given touches, of which the last one comes first. -/
def HeldBy (touched : List (List String)) (capacity : Nat) (past : List (Call β))
    (fields : List String) : Prop :=
  (stored? fields past).isSome = true ∧
    (touched.takeWhile (· ≠ fields)).toFinset.card < capacity

instance (touched : List (List String)) (capacity : Nat) (past : List (Call β))
    (fields : List String) : Decidable (HeldBy touched capacity past fields) :=
  inferInstanceAs (Decidable (_ ∧ _))

/-- The fields that were touched, the last ones first: those that were stored, and those that were
looked up while they were held. -/
def touched (capacity : Nat) : List (Call β) → List (List String)
  | [] => []
  | .set fields _ :: past => fields :: touched capacity past
  | .get fields :: past =>
    if HeldBy (touched capacity past) capacity past fields then fields :: touched capacity past
    else touched capacity past
  | .contains _ :: past | .clear :: past => touched capacity past

/-- A cache of a capacity holds the fields after some calls. -/
def Held (capacity : Nat) (past : List (Call β)) (fields : List String) : Prop :=
  HeldBy (touched capacity past) capacity past fields

instance (capacity : Nat) (past : List (Call β)) (fields : List String) :
    Decidable (Held capacity past fields) :=
  inferInstanceAs (Decidable (HeldBy _ _ _ _))

/-- A look-up of what is held touches it. -/
theorem touched_get_of_held {capacity : Nat} {past : List (Call β)} {fields : List String}
    (h : Held capacity past fields) :
    touched capacity (.get fields :: past) = fields :: touched capacity past :=
  if_pos h

theorem touched_get_of_not_held {capacity : Nat} {past : List (Call β)} {fields : List String}
    (h : ¬ Held capacity past fields) :
    touched capacity (.get fields :: past) = touched capacity past :=
  if_neg h

/-! ## The entries as the calls tell them -/

/-- The entries of a cache after some calls, for the keys touched since the last clearing, the
last ones first. -/
structure Mirrors (used : Set (List String)) (past : List (Call β)) (recent : List (List String))
    (c : Cache β) : Prop where
  touched : recent <+: touched c.stats.capacity past
  used : ∀ fields ∈ recent, fields ∈ used
  stored : ∀ fields, (stored? fields past).isSome = true ↔ fields ∈ recent
  entries : c.entries.reverse.map (Prod.map id some) =
    ((ranked recent).take c.stats.capacity).map fun fields => (c.keyOf fields, stored? fields past)

namespace Mirrors

variable {used : Set (List String)} {past : List (Call β)} {recent : List (List String)}
  {fields : List String} {v : β}

theorem length_le (h : Mirrors used past recent c) : c.entries.length ≤ c.stats.capacity := by
  have hlength := congrArg List.length h.entries
  rw [List.length_map, List.length_reverse, List.length_map] at hlength
  rw [hlength]
  exact List.length_take_le _ _

theorem mem_entries_iff (h : Mirrors used past recent c) {key : String} :
    (key, v) ∈ c.entries ↔ ∃ fields ∈ (ranked recent).take c.stats.capacity,
      c.keyOf fields = key ∧ stored? fields past = some v := by
  have hview : (key, v) ∈ c.entries ↔
      (key, some v) ∈ c.entries.reverse.map (Prod.map id some) := by
    simp [Prod.map]
  rw [hview, h.entries, List.mem_map]
  simp only [Prod.mk.injEq]

/-- What is held ranks high enough. -/
theorem held_iff (h : Mirrors used past recent c) :
    Held c.stats.capacity past fields ↔ fields ∈ (ranked recent).take c.stats.capacity := by
  rw [mem_take_ranked_iff, Held, HeldBy, h.stored]
  refine and_congr_right fun hmem => ?_
  -- the last touch is after the last clearing, so nothing before that counts
  obtain ⟨old, hold⟩ := h.touched
  have hsince : (Cache.touched c.stats.capacity past).takeWhile (· ≠ fields) =
      recent.takeWhile (· ≠ fields) := by
    rw [← hold, List.takeWhile_append, if_neg]
    intro hall
    rw [← (List.takeWhile_prefix _).eq_of_length hall] at hmem
    simpa using List.mem_takeWhile_imp hmem
  rw [hsince]

/-- What is held is found, with the value that was stored last. -/
theorem lookup_iff (h : Mirrors used past recent c) (hinj : Set.InjOn c.keyOf used)
    (hfields : fields ∈ used) :
    c.entries.lookup (c.keyOf fields) = some v ↔
      Held c.stats.capacity past fields ∧ stored? fields past = some v := by
  have hfound {w : β} (hw : c.entries.lookup (c.keyOf fields) = some w) :
      fields ∈ (ranked recent).take c.stats.capacity ∧ stored? fields past = some w := by
    obtain ⟨l, r, heq, -⟩ := List.lookup_eq_some_iff.mp hw
    have hentry : (c.keyOf fields, w) ∈ c.entries := by simp [heq]
    obtain ⟨other, hother, hkey, hvalue⟩ := h.mem_entries_iff.mp hentry
    have hrecent : other ∈ recent := mem_ranked.mp (List.mem_of_mem_take hother)
    obtain rfl := hinj (h.used other hrecent) hfields hkey
    exact ⟨hother, hvalue⟩
  rw [h.held_iff]
  constructor
  · exact hfound
  · rintro ⟨hmem, hvalue⟩
    have hentry : (c.keyOf fields, v) ∈ c.entries :=
      h.mem_entries_iff.mpr ⟨fields, hmem, rfl, hvalue⟩
    cases hlookup : c.entries.lookup (c.keyOf fields) with
    | none => simpa using List.lookup_eq_none_iff.mp hlookup _ hentry
    | some w => rw [← hvalue, (hfound hlookup).2]

/-- What is not held is not found. -/
theorem lookup_eq_none (h : Mirrors used past recent c) (hinj : Set.InjOn c.keyOf used)
    (hfields : fields ∈ used) (hheld : ¬ Held c.stats.capacity past fields) :
    c.entries.lookup (c.keyOf fields) = none := by
  rw [Option.eq_none_iff_forall_ne_some]
  intro v hv
  exact hheld ((h.lookup_iff hinj hfields).mp hv).1

/-- The entries under other keys are those of the other fields. -/
theorem without (h : Mirrors used past recent c) (hinj : Set.InjOn c.keyOf used)
    (hfields : fields ∈ used) :
    (Cache.without (c.keyOf fields) c.entries).reverse.map (Prod.map id some) =
      (((ranked recent).take c.stats.capacity).filter (· ≠ fields)).map fun other =>
        (c.keyOf other, stored? other past) := by
  have hkeys : ∀ other ∈ (ranked recent).take c.stats.capacity,
      (c.keyOf other != c.keyOf fields) = decide (other ≠ fields) := by
    intro other hother
    have hused := h.used other (mem_ranked.mp (List.mem_of_mem_take hother))
    have hiff : c.keyOf other = c.keyOf fields ↔ other = fields := hinj.eq_iff hused hfields
    rw [Bool.eq_iff_iff, bne_iff_ne, decide_eq_true_iff, ne_eq, ne_eq, hiff]
  calc (Cache.without (c.keyOf fields) c.entries).reverse.map (Prod.map id some)
      = (c.entries.reverse.map (Prod.map id some)).filter (·.1 != c.keyOf fields) := by
        rw [Cache.without, ← List.filter_reverse, List.filter_map]
        rfl
    _ = (((ranked recent).take c.stats.capacity).filter
          fun other => c.keyOf other != c.keyOf fields).map fun other =>
            (c.keyOf other, stored? other past) := by
        rw [h.entries, List.filter_map]
        rfl
    _ = (((ranked recent).take c.stats.capacity).filter (· ≠ fields)).map fun other =>
          (c.keyOf other, stored? other past) := by
        rw [List.filter_congr hkeys]

/-- Putting an entry in front puts its key in front of those that were touched. -/
theorem touch (h : Mirrors used past recent c) (hinj : Set.InjOn c.keyOf used)
    (hfields : fields ∈ used) {c' : Cache β} {call : Call β}
    (hcapacity : c'.stats.capacity = c.stats.capacity) (hkey : c'.keyOf = c.keyOf)
    (htouched : Cache.touched c.stats.capacity (call :: past) =
      fields :: Cache.touched c.stats.capacity past)
    (hstored : stored? fields (call :: past) = some v)
    (hothers : ∀ other, other ≠ fields → stored? other (call :: past) = stored? other past)
    (hentries : c'.entries.reverse = c.pushed (c.keyOf fields) v) :
    Mirrors used (call :: past) (fields :: recent) c' where
  touched := by
    rw [hcapacity, htouched]
    exact List.cons_prefix_cons.mpr ⟨rfl, h.touched⟩
  used := by
    intro other hother
    rcases List.mem_cons.mp hother with rfl | hother
    · exact hfields
    · exact h.used other hother
  stored := by
    intro other
    rw [List.mem_cons]
    by_cases hother : other = fields
    · subst hother
      simp [hstored]
    · rw [hothers other hother, h.stored]
      simp [hother]
  entries := by
    let n := c.stats.capacity
    let entry (other : List String) := (c.keyOf other, stored? other (call :: past))
    have hrest : (Cache.without (c.keyOf fields) c.entries).reverse.map (Prod.map id some) =
        (((ranked recent).take n).filter (· ≠ fields)).map entry := by
      rw [h.without hinj hfields]
      refine List.map_congr_left fun other hother => ?_
      have hne : other ≠ fields := by simpa using (List.mem_filter.mp hother).2
      simp only [entry, hothers other hne]
    calc c'.entries.reverse.map (Prod.map id some)
        = ((c.keyOf fields, some v) ::
            (Cache.without (c.keyOf fields) c.entries).reverse.map (Prod.map id some)).take n := by
          rw [hentries, pushed, List.map_take]
          rfl
      _ = ((fields :: ((ranked recent).take n).filter (· ≠ fields)).map entry).take n := by
          rw [hrest, List.map_cons]
          simp only [entry, hstored]
      _ = ((ranked (fields :: recent)).take n).map entry := by
          rw [take_ranked_cons, List.map_take]
      _ = _ := by rw [hcapacity, hkey]

theorem empty (capacity : Nat) (a : Algorithm) :
    Mirrors used [] [] (Cache.empty capacity a : Cache β) where
  touched := List.nil_prefix
  used _ h := by cases h
  stored _ := by simp [stored?]
  entries := by simp [Cache.empty, ranked]

/-- After every call the entries are again as the calls tell them. -/
theorem call (h : Mirrors used past recent c) (hinj : Set.InjOn c.keyOf used) {call : Call β}
    (hcall : ∀ fields, call.fields? = some fields → fields ∈ used) :
    ∃ recent, Mirrors used (call :: past) recent (c.call call) := by
  cases call with
  | get fields =>
      have hfields : fields ∈ used := hcall fields rfl
      by_cases hheld : Held c.stats.capacity past fields
      · obtain ⟨v, hv⟩ := Option.isSome_iff_exists.mp hheld.1
        have hlookup := (h.lookup_iff hinj hfields).mpr ⟨hheld, hv⟩
        exact ⟨fields :: recent, h.touch hinj hfields capacity_get keyOf_get
          (touched_get_of_held hheld) hv (fun _ _ => rfl)
          (reverse_entries_get h.length_le hlookup)⟩
      · have hnone := h.lookup_eq_none hinj hfields hheld
        refine ⟨recent, ?_, h.used, h.stored, ?_⟩
        · show recent <+: Cache.touched (c.get fields).2.stats.capacity (.get fields :: past)
          rw [capacity_get, touched_get_of_not_held hheld]
          exact h.touched
        · show (c.get fields).2.entries.reverse.map _ = _
          rw [entries_get_of_none hnone, h.entries]
          show _ = ((ranked recent).take (c.get fields).2.stats.capacity).map fun other =>
            ((c.get fields).2.keyOf other, stored? other past)
          rw [capacity_get, keyOf_get]
  | set fields v =>
      have hfields : fields ∈ used := hcall fields rfl
      have hothers (other : List String) (hne : other ≠ fields) :
          stored? other (.set fields v :: past) = stored? other past :=
        if_neg hne.symm
      exact ⟨fields :: recent, h.touch hinj hfields capacity_set keyOf_set rfl (if_pos rfl)
        hothers (reverse_entries_set h.length_le)⟩
  | contains fields => exact ⟨recent, h.touched, h.used, h.stored, h.entries⟩
  | clear =>
      exact ⟨[], List.nil_prefix, nofun, fun _ => by simp [stored?],
        by simp [Cache.call, clear, ranked]⟩

end Mirrors

theorem algorithm_call (c : Cache β) (call : Call β) :
    (c.call call).algorithm = c.algorithm := by
  cases call with
  | get fields => exact algorithm_get
  | set fields v => exact algorithm_set
  | contains fields => rfl
  | clear => rfl

theorem capacity_call (c : Cache β) (call : Call β) :
    (c.call call).stats.capacity = c.stats.capacity := by
  cases call with
  | get fields => exact capacity_get
  | set fields v => exact capacity_set
  | contains fields => rfl
  | clear => rfl

theorem algorithm_after (c : Cache β) (past : List (Call β)) :
    (c.after past).algorithm = c.algorithm := by
  induction past with
  | nil => rfl
  | cons call past ih => exact (algorithm_call _ call).trans ih

theorem capacity_after (c : Cache β) (past : List (Call β)) :
    (c.after past).stats.capacity = c.stats.capacity := by
  induction past with
  | nil => rfl
  | cons call past ih => exact (capacity_call _ call).trans ih

/-- After every run of calls the entries are as the calls tell them, if the digest tells the
fields apart that the calls are about. -/
theorem exists_mirrors {used : Set (List String)} (capacity : Nat) (a : Algorithm)
    (hinj : Set.InjOn (Digest.ofFields a) used) {past : List (Call β)}
    (hused : ∀ call ∈ past, ∀ fields, call.fields? = some fields → fields ∈ used) :
    ∃ recent, Mirrors used past recent ((empty capacity a : Cache β).after past) := by
  induction past with
  | nil => exact ⟨[], .empty capacity a⟩
  | cons call past ih =>
      obtain ⟨recent, h⟩ := ih fun call hcall => hused call (List.mem_cons_of_mem _ hcall)
      refine h.call ?_ (hused call List.mem_cons_self)
      intro x hx y hy hxy
      rw [keyOf, keyOf, algorithm_after] at hxy
      exact hinj hx hy hxy

/-! ## The law -/

/-- The fields that calls are about. -/
def keys (past : List (Call β)) : List (List String) := past.filterMap Call.fields?

/-- At every point of a run of calls, with keys that the digest tells apart, a cache contains a key
if and only if it was stored since the last clearing and fewer other keys than there is room for
were touched since its own last touch.  A look-up of such a key answers with the value that was
last stored under it and one of any other key with nothing, and asking whether a key is contained
changes nothing. -/
theorem contains_iff_held (capacity : Nat) (a : Algorithm) (past : List (Call β))
    (fields : List String) (hkeys : ∀ key ∈ fields :: keys past, Digest.Separable key)
    (hdigest : Set.InjOn (Digest.ofText a)
      {text | ∃ key ∈ fields :: keys past, Digest.joinFields key = text}) :
    let c := (empty capacity a : Cache β).after past
    (c.contains fields = true ↔ Held capacity past fields) ∧
      (Held capacity past fields →
        ∃ v, stored? fields past = some v ∧ (c.get fields).1 = some v) ∧
      (¬ Held capacity past fields → (c.get fields).1 = none) ∧
      c.call (.contains fields) = c := by
  intro c
  let used : Set (List String) := {key | key ∈ fields :: keys past}
  have hfields : fields ∈ used := List.mem_cons_self
  have hinj : Set.InjOn (Digest.ofFields a) used := by
    intro x hx y hy hxy
    have htext := hdigest ⟨x, hx, rfl⟩ ⟨y, hy, rfl⟩ hxy
    exact Digest.joinFields_injOn (hkeys x hx) (hkeys y hy) htext
  obtain ⟨recent, h⟩ : ∃ recent, Mirrors used past recent c :=
    exists_mirrors capacity a hinj fun call hcall key hkey =>
      List.mem_cons_of_mem _ (List.mem_filterMap.mpr ⟨call, hcall, hkey⟩)
  have hcapacity : c.stats.capacity = capacity := capacity_after _ past
  have hkeyOf : c.keyOf = Digest.ofFields a := by
    funext key
    rw [keyOf, algorithm_after]
    rfl
  rw [← hkeyOf] at hinj
  rw [← hcapacity]
  refine ⟨?_, ?_, ?_, rfl⟩
  · rw [contains, Option.isSome_iff_exists]
    simp only [h.lookup_iff hinj hfields]
    constructor
    · rintro ⟨v, hheld, -⟩
      exact hheld
    · intro hheld
      obtain ⟨v, hv⟩ := Option.isSome_iff_exists.mp hheld.1
      exact ⟨v, hheld, hv⟩
  · intro hheld
    obtain ⟨v, hv⟩ := Option.isSome_iff_exists.mp hheld.1
    exact ⟨v, hv, get_eq_lookup.trans ((h.lookup_iff hinj hfields).mpr ⟨hheld, hv⟩)⟩
  · intro hheld
    exact get_eq_lookup.trans (h.lookup_eq_none hinj hfields hheld)

/-- Keys for a sample, one of them with two fields. -/
def sampleKeys : List (List String) := [["a"], ["b"], ["c", ""]]

/-- Calls for a sample, the last one first. -/
def sampleCalls : List (Call Nat) :=
  [.get ["b"], .set ["a"] 4, .contains ["b"], .set ["c", ""] 3, .get ["a"], .set ["b"] 2,
    .set ["a"] 1, .clear, .set ["c", ""] 0]

/-- In a cache for two entries, a look-up keeps the older of two keys from being dropped, and the
other one leaves. -/
theorem contains_iff_held_sample :
    let c := (empty 2 : Cache Nat).after sampleCalls
    (∀ fields ∈ sampleKeys, (∀ key ∈ fields :: keys sampleCalls, Digest.Separable key) ∧
      Set.InjOn (Digest.ofText .xxhash64)
        {text | ∃ key ∈ fields :: keys sampleCalls, Digest.joinFields key = text}) ∧
      c.contains ["a"] = true ∧ (c.get ["a"]).1 = some 4 ∧ c.contains ["b"] = false ∧
      (c.get ["b"]).1 = none := by
  intro c
  have hseparable : ∀ key ∈ sampleKeys, Digest.Separable key := by decide +kernel
  have hdistinct : ∀ x ∈ sampleKeys, ∀ y ∈ sampleKeys,
      Digest.ofFields .xxhash64 x = Digest.ofFields .xxhash64 y → x = y := by decide +kernel
  have hused : ∀ fields ∈ sampleKeys, ∀ key ∈ fields :: keys sampleCalls, key ∈ sampleKeys := by
    decide +kernel
  have hkeys : ∀ fields ∈ sampleKeys, (∀ key ∈ fields :: keys sampleCalls,
      Digest.Separable key) ∧ Set.InjOn (Digest.ofText .xxhash64)
        {text | ∃ key ∈ fields :: keys sampleCalls, Digest.joinFields key = text} := by
    intro fields hfields
    refine ⟨fun key hkey => hseparable key (hused fields hfields key hkey), ?_⟩
    rintro _ ⟨x, hx, rfl⟩ _ ⟨y, hy, rfl⟩ h
    rw [hdistinct x (hused fields hfields x hx) y (hused fields hfields y hy) h]
  have ha := hkeys ["a"] (by decide)
  have hb := hkeys ["b"] (by decide)
  obtain ⟨hcontains, hget, -, -⟩ := contains_iff_held 2 .xxhash64 sampleCalls ["a"] ha.1 ha.2
  obtain ⟨hcontains', -, hget', -⟩ := contains_iff_held 2 .xxhash64 sampleCalls ["b"] hb.1 hb.2
  have hheld : Held 2 sampleCalls ["a"] := by decide +kernel
  have hdropped : ¬ Held 2 sampleCalls ["b"] := by decide +kernel
  obtain ⟨v, hv, hvalue⟩ := hget hheld
  cases hv
  exact ⟨hkeys, hcontains.mpr hheld, hvalue, Bool.eq_false_iff.mpr (mt hcontains'.mp hdropped),
    hget' hdropped⟩

end Cache

end PageDesign
