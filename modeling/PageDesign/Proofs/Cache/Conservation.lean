/-
# PageDesign.Proofs.Cache.Conservation -- the statistics of a cache add up

A cache counts hits, misses and evictions while it runs.  What it counts can be told from the calls
that were made of it: every call is weighed by what it does to the cache that it meets (`total`).
An entry that came in by a call is still there, was evicted, or was dropped by a clearing, so what
came in is what is there and what left (`Conserved.entries`).

All counts are kept right by one invariant, which every call preserves (`Conserved.call`).  It holds
of whatever the digests are: two fields with the same digest have the same key.
-/
import PageDesign.Proofs.Cache.Recency

namespace PageDesign.Cache

variable {β : Type} {c : Cache β} {fields : List String} {v : β}

/-! ## The keys of entries -/

/-- The keys under which there are entries, the least recently used one first. -/
def keysOf (entries : List (String × β)) : List String := entries.map (·.1)

theorem contains_iff : c.contains fields = true ↔ c.keyOf fields ∈ keysOf c.entries := by
  rw [contains, keysOf]
  cases hlookup : c.entries.lookup (c.keyOf fields) with
  | none =>
      have hnone := List.lookup_eq_none_iff.mp hlookup
      refine iff_of_false (by simp) fun hmem => ?_
      obtain ⟨e, he, heq⟩ := List.mem_map.mp hmem
      simpa [heq] using hnone e he
  | some v =>
      obtain ⟨l, r, heq, -⟩ := List.lookup_eq_some_iff.mp hlookup
      exact iff_of_true rfl (by simp [heq])

theorem keysOf_without (key : String) (entries : List (String × β)) :
    keysOf (without key entries) = (keysOf entries).filter (· != key) := by
  rw [keysOf, keysOf, List.filter_map]
  rfl

/-- Where keys are distinct, an entry that is put behind those under other keys makes one more only
if its key was absent. -/
theorem length_concat_without {entries : List (String × β)} (h : (keysOf entries).Nodup)
    (key : String) (v : β) : (without key entries ++ [(key, v)]).length =
      entries.length + if key ∈ keysOf entries then 0 else 1 := by
  have hlength (es : List (String × β)) : (keysOf es).length = es.length := List.length_map _
  rw [List.length_append, List.length_singleton, ← hlength, ← hlength, keysOf_without,
    ← h.erase_eq_filter]
  split
  next hmem =>
    have hpos : 0 < (keysOf entries).length := List.length_pos_of_mem hmem
    rw [List.length_erase_of_mem hmem]
    omega
  next hmem => rw [List.erase_of_not_mem hmem]

/-- An entry that is put behind those under other keys leaves keys distinct. -/
theorem nodup_keysOf_concat {entries : List (String × β)} (h : (keysOf entries).Nodup)
    (key : String) (v : β) : (keysOf (without key entries ++ [(key, v)])).Nodup := by
  have hconcat : keysOf (without key entries ++ [(key, v)]) =
      (keysOf entries).filter (· != key) ++ [key] := by
    rw [← keysOf_without, keysOf, List.map_append]
    rfl
  rw [hconcat, List.nodup_append']
  refine ⟨h.filter _, List.nodup_singleton key, ?_⟩
  simp [List.Disjoint]

/-! ## Counting calls -/

/-- One for a look-up. -/
def looksUp (_ : Cache β) : Call β → Nat
  | .get _ => 1
  | _ => 0

/-- One for a look-up that finds its key. -/
def finds (c : Cache β) : Call β → Nat
  | .get fields => if c.contains fields then 1 else 0
  | _ => 0

/-- One for a value that is stored under a key that was absent. -/
def adds (c : Cache β) : Call β → Nat
  | .set fields _ => if c.contains fields then 0 else 1
  | _ => 0

/-- The number of entries that a clearing drops. -/
def drops (c : Cache β) : Call β → Nat
  | .clear => c.size
  | _ => 0

/-- What calls add up to, of which the last one comes first, each weighed with the cache that it
meets. -/
def total (weigh : Cache β → Call β → Nat) (c : Cache β) : List (Call β) → Nat
  | [] => 0
  | last :: past => total weigh c past + weigh (c.after past) last

/-! ## Conservation -/

/-- The statistics are right for so many look-ups, hits, entries that came in and entries that were
dropped. -/
structure Conserved (looked found added dropped : Nat) (c : Cache β) : Prop where
  keys : (keysOf c.entries).Nodup
  room : c.size ≤ c.stats.capacity
  size : c.stats.size = c.size
  lookups : c.stats.hits + c.stats.misses = looked
  hits : c.stats.hits = found
  /-- What came in is there, was evicted or was dropped. -/
  entries : c.stats.evictions + c.size + dropped = added

namespace Conserved

variable {looked found added dropped : Nat}

/-- A look-up counts a hit if it finds its key, and a miss if not. -/
theorem get (h : Conserved looked found added dropped c) (fields : List String) :
    Conserved (looked + 1) (found + if c.contains fields then 1 else 0) added dropped
      (c.get fields).2 := by
  obtain ⟨hkeys, hroom, hsize, hlookups, hhits, hentries⟩ := h
  rw [Cache.size] at hroom hsize hentries
  rw [Cache.get]
  cases hlookup : c.entries.lookup (c.keyOf fields) with
  | none =>
      have hcontains : c.contains fields = false := by rw [contains, hlookup]; rfl
      have hmiss : c.stats.hits + (c.stats.misses + 1) = looked + 1 := by omega
      rw [hcontains]
      exact ⟨hkeys, hroom, hsize, hmiss, hhits, hentries⟩
  | some v =>
      have hcontains : c.contains fields = true := by rw [contains, hlookup]; rfl
      have hhit : c.stats.hits + 1 + c.stats.misses = looked + 1 := by omega
      -- the entry only goes to the end, so there are as many as before
      have hsame : (without (c.keyOf fields) c.entries ++ [(c.keyOf fields, v)]).length =
          c.entries.length := by
        rw [length_concat_without hkeys, if_pos (contains_iff.mp hcontains), Nat.add_zero]
      rw [← hsame] at hroom hsize hentries
      rw [hcontains]
      exact ⟨nodup_keysOf_concat hkeys _ v, hroom, hsize, hhit, congrArg (· + 1) hhits, hentries⟩

/-- Storing adds an entry if the key was absent, and evicts one if there is no room for it. -/
theorem set (h : Conserved looked found added dropped c) (fields : List String) (v : β) :
    Conserved looked found (added + if c.contains fields then 0 else 1) dropped
      (c.set fields v) := by
  obtain ⟨hkeys, hroom, hsize, hlookups, hhits, hentries⟩ := h
  rw [Cache.size] at hroom hentries
  have hconcat := nodup_keysOf_concat hkeys (c.keyOf fields) v
  have hlength : (without (c.keyOf fields) c.entries ++ [(c.keyOf fields, v)]).length =
      c.entries.length + if c.contains fields then 0 else 1 := by
    rw [length_concat_without hkeys]
    simp only [contains_iff]
  rw [Cache.set]
  generalize without (c.keyOf fields) c.entries ++ [(c.keyOf fields, v)] = new at hconcat hlength ⊢
  by_cases hover : c.stats.capacity < new.length
  · rw [if_pos hover]
    have hone : (if c.contains fields then 0 else 1) ≤ 1 := by split <;> decide
    have hkept : (new.drop 1).length + 1 = new.length := by
      rw [List.length_drop]
      omega
    refine ⟨hconcat.sublist ((List.drop_sublist 1 new).map _), ?_, rfl, hlookups, hhits, ?_⟩
    · show (new.drop 1).length ≤ c.stats.capacity
      omega
    · show c.stats.evictions + 1 + (new.drop 1).length + dropped = _
      omega
  · rw [if_neg hover]
    refine ⟨hconcat, Nat.le_of_not_lt hover, rfl, hlookups, hhits, ?_⟩
    show c.stats.evictions + new.length + dropped = _
    omega

theorem clear (h : Conserved looked found added dropped c) :
    Conserved looked found added (dropped + c.size) c.clear where
  keys := List.nodup_nil
  room := Nat.zero_le _
  size := rfl
  lookups := h.lookups
  hits := h.hits
  entries := by
    have hentries := h.entries
    show c.stats.evictions + 0 + (dropped + c.size) = added
    omega

/-- Every call keeps the statistics right. -/
theorem call (h : Conserved looked found added dropped c) (call : Call β) :
    Conserved (looked + looksUp c call) (found + finds c call) (added + adds c call)
      (dropped + drops c call) (c.call call) := by
  cases call with
  | get fields => exact h.get fields
  | set fields v => exact h.set fields v
  | contains fields => exact h
  | clear => exact h.clear

theorem empty (capacity : Nat) (a : Algorithm) :
    Conserved 0 0 0 0 (Cache.empty capacity a : Cache β) where
  keys := List.nodup_nil
  room := Nat.zero_le _
  size := rfl
  lookups := rfl
  hits := rfl
  entries := rfl

/-- After every run of calls the statistics are right. -/
theorem after (h : Conserved 0 0 0 0 c) (past : List (Call β)) :
    Conserved (total looksUp c past) (total finds c past) (total adds c past)
      (total drops c past) (c.after past) := by
  induction past with
  | nil => exact h
  | cons last past ih => exact ih.call last

end Conserved

/-! ## The law -/

/-- A cache is made for every capacity that is positive.  At every point of a run of calls it
reports as its size the number of its entries, which are no more than there is room for; as hits
the look-ups that found their key, and as hits and misses all look-ups; and it has evicted what came
in, less what is there and what was dropped by clearings.  Asking whether a key is contained changes
nothing, and clearing resets only the entries and the size. -/
theorem statistics_conserved (capacity : Int) (a : Algorithm) (hcapacity : 0 < capacity) :
    ∃ start : Cache β, ofCapacity? capacity a = some start ∧ ∀ past : List (Call β),
      let c := start.after past
      (c.stats.size = c.size ∧ (c.size : Int) ≤ capacity ∧ (c.stats.capacity : Int) = capacity) ∧
        c.stats.hits = total finds start past ∧
        c.stats.hits + c.stats.misses = total looksUp start past ∧
        c.stats.evictions + c.size + total drops start past = total adds start past ∧
        (∀ fields, (c.get fields).1.isSome = c.contains fields ∧
          c.call (.contains fields) = c) ∧
        c.call .clear = { c with entries := [], stats := { c.stats with size := 0 } } := by
  have hroom : (capacity.toNat : Int) = capacity := Int.toNat_of_nonneg (Int.le_of_lt hcapacity)
  refine ⟨Cache.empty capacity.toNat a, if_pos hcapacity, fun past => ?_⟩
  have h := (Conserved.empty (β := β) capacity.toNat a).after past
  have hkept := capacity_after (Cache.empty capacity.toNat a : Cache β) past
  have hle := h.room
  rw [hkept] at hle
  refine ⟨⟨h.size, ?_, ?_⟩, h.hits, h.lookups, h.entries, fun fields => ⟨?_, rfl⟩, rfl⟩
  · exact Int.le_trans (Int.ofNat_le.mpr hle) (Int.le_of_eq hroom)
  · rw [hkept]
    exact hroom
  · rw [get_eq_lookup, contains]

/-- In a cache for one entry, a second key evicts the first one, and the entry that is stored again
is dropped by a clearing. -/
theorem statistics_conserved_sample :
    let start : Cache Nat := Cache.empty 1
    let past : List (Call Nat) :=
      [.set ["c"] 5, .clear, .set ["b"] 3, .get ["b"], .get ["a"], .set ["b"] 2, .set ["a"] 1]
    (0 : Int) < 1 ∧ total adds start past = 3 ∧ total drops start past = 1 ∧
      (start.after past).size = 1 ∧ (start.after past).stats.evictions = 1 ∧
      (start.after past).stats.hits = 1 ∧ (start.after past).stats.misses = 1 := by
  intro start past
  have hadds : total adds start past = 3 := by decide +kernel
  have hdrops : total drops start past = 1 := by decide +kernel
  have hfinds : total finds start past = 1 := by decide +kernel
  have hlooks : total looksUp start past = 2 := by decide +kernel
  have hsize : (start.after past).size = 1 := by decide +kernel
  obtain ⟨other, hother, hall⟩ := statistics_conserved (β := Nat) 1 .xxhash64 (by decide)
  obtain rfl : start = other := Option.some.inj hother
  obtain ⟨-, hhits, hlookups, hentries, -⟩ := hall past
  refine ⟨by decide, hadds, hdrops, hsize, ?_, hhits.trans hfinds, ?_⟩
  · omega
  · omega

end PageDesign.Cache
