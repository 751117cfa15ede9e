/-
# PageDesign.Proofs.History.Timeline -- undo and redo as steps along a line of states

A timeline is a present state between the states before it and the states that were left by
going back.  A step back and a step forward undo each other without exception, and so do any
numbers of them (`repeat_inverse`).

A bounded history steps in the same way as long as its two lists hold no more states together
than one of them may hold (`Balanced`).  Every operation of a history keeps this, so nothing
that is parked is ever dropped.
-/
import PageDesign.History

namespace PageDesign

variable {σ τ : Type}

/-! ## Steps that may fail -/

/-- Takes a step that may fail a number of times. -/
def repeat? (step : σ → Option σ) : Nat → σ → Option σ
  | 0, s => some s
  | n + 1, s => (step s).bind (repeat? step n)

theorem repeat_succ (step : σ → Option σ) (n : Nat) (s : σ) :
    repeat? step (n + 1) s = (repeat? step n s).bind step := by
  induction n generalizing s with
  | zero => simp [repeat?]
  | succ n ih =>
      rw [repeat?, repeat?]
      cases step s with
      | none => rfl
      | some t => exact ih t

/-- If one kind of step takes back the other, so do as many of them. -/
theorem repeat_inverse {step back : σ → Option σ}
    (h : ∀ s t, step s = some t → back t = some s) {n : Nat} {s t : σ}
    (hst : repeat? step n s = some t) : repeat? back n t = some s := by
  induction n generalizing s with
  | zero =>
      cases hst
      rfl
  | succ n ih =>
      obtain ⟨u, hu, hut⟩ := Option.bind_eq_some_iff.mp hst
      rw [repeat_succ, ih hut, Option.bind_some, h s u hu]

/-- Steps on states with a property, which they keep, are the steps of a view of the states. -/
structure Simulates (P : σ → Prop) (view : σ → τ) (step : σ → Option σ) (step' : τ → Option τ) :
    Prop where
  view_step : ∀ s, P s → (step s).map view = step' (view s)
  keep : ∀ s t, P s → step s = some t → P t

/-- Steps that the view takes can be taken. -/
theorem Simulates.exists_repeat {P : σ → Prop} {view : σ → τ} {step : σ → Option σ}
    {step' : τ → Option τ} (h : Simulates P view step step') {n : Nat} {s : σ} {t' : τ}
    (hs : P s) (hn : repeat? step' n (view s) = some t') :
    ∃ t, repeat? step n s = some t ∧ view t = t' ∧ P t := by
  induction n generalizing s with
  | zero =>
      cases hn
      exact ⟨s, rfl, rfl, hs⟩
  | succ n ih =>
      obtain ⟨u', hu', hn⟩ := Option.bind_eq_some_iff.mp hn
      obtain ⟨u, hu, rfl⟩ := Option.map_eq_some_iff.mp ((h.view_step s hs).trans hu')
      obtain ⟨t, ht, hview, hP⟩ := ih (h.keep s u hs hu) hn
      refine ⟨t, ?_, hview, hP⟩
      rw [repeat?, hu, Option.bind_some, ht]

/-- If the view can go some steps and goes back the way it came, so can the states, and the view
is the same again. -/
theorem Simulates.exists_return {P : σ → Prop} {view : σ → τ} {step back : σ → Option σ}
    {step' back' : τ → Option τ} (h : Simulates P view step step')
    (hback : Simulates P view back back') (hinverse : ∀ s t, step' s = some t → back' t = some s)
    {n : Nat} {s : σ} {t' : τ} (hs : P s) (hn : repeat? step' n (view s) = some t') :
    ∃ t u, repeat? step n s = some t ∧ repeat? back n t = some u ∧ view u = view s := by
  obtain ⟨t, ht, rfl, hP⟩ := h.exists_repeat hs hn
  obtain ⟨u, hu, hview, -⟩ := hback.exists_repeat hP (repeat_inverse hinverse hn)
  exact ⟨t, u, ht, hu, hview⟩

/-! ## Timelines -/

/-- A state between those before it and those left by going back, the nearest first. -/
structure Timeline (σ : Type) where
  past : List σ
  present : σ
  future : List σ

namespace Timeline

/-- One step back, if there is a state to go back to. -/
def back? (t : Timeline σ) : Option (Timeline σ) :=
  match t.past with
  | [] => none
  | s :: past => some ⟨past, s, t.present :: t.future⟩

/-- One step forward, if there is a state to go forward to. -/
def forward? (t : Timeline σ) : Option (Timeline σ) :=
  match t.future with
  | [] => none
  | s :: future => some ⟨t.present :: t.past, s, future⟩

/-- Every state is seen through a function. -/
def map (view : σ → τ) (t : Timeline σ) : Timeline τ :=
  ⟨t.past.map view, view t.present, t.future.map view⟩

/-- All states of a timeline. -/
def states (t : Timeline σ) : List σ := t.present :: (t.past ++ t.future)

theorem mem_states {t : Timeline σ} {s : σ} :
    s ∈ t.states ↔ s = t.present ∨ s ∈ t.past ∨ s ∈ t.future := by
  rw [states, List.mem_cons, List.mem_append]

theorem states_map (view : σ → τ) (t : Timeline σ) :
    (t.map view).states = t.states.map view := by
  simp [states, map]

theorem forward_of_back (t u : Timeline σ) (h : t.back? = some u) : u.forward? = some t := by
  obtain ⟨past, present, future⟩ := t
  cases past with
  | nil => cases h
  | cons s past =>
      cases h
      rfl

theorem back_of_forward (t u : Timeline σ) (h : t.forward? = some u) : u.back? = some t := by
  obtain ⟨past, present, future⟩ := t
  cases future with
  | nil => cases h
  | cons s future =>
      cases h
      rfl

theorem back_map (view : σ → τ) (t : Timeline σ) :
    (t.map view).back? = t.back?.map (map view) := by
  obtain ⟨past, present, future⟩ := t
  cases past <;> rfl

theorem forward_map (view : σ → τ) (t : Timeline σ) :
    (t.map view).forward? = t.forward?.map (map view) := by
  obtain ⟨past, present, future⟩ := t
  cases future <;> rfl

/-- One can go back as often as there are states before the present one. -/
theorem exists_repeat_back {n : Nat} {t : Timeline σ} (h : n ≤ t.past.length) :
    ∃ u, repeat? back? n t = some u := by
  induction n generalizing t with
  | zero => exact ⟨t, rfl⟩
  | succ n ih =>
      obtain ⟨past, present, future⟩ := t
      cases past with
      | nil => cases h
      | cons s past => exact ih (t := ⟨past, s, present :: future⟩) (Nat.le_of_succ_le_succ h)

theorem exists_repeat_forward {n : Nat} {t : Timeline σ} (h : n ≤ t.future.length) :
    ∃ u, repeat? forward? n t = some u := by
  induction n generalizing t with
  | zero => exact ⟨t, rfl⟩
  | succ n ih =>
      obtain ⟨past, present, future⟩ := t
      cases future with
      | nil => cases h
      | cons s future => exact ih (t := ⟨present :: past, s, future⟩) (Nat.le_of_succ_le_succ h)

end Timeline

/-! ## Histories -/

namespace History

/-- The two lists hold no more states together than one of them may hold. -/
def Balanced (h : History σ) : Prop := h.undone.length + h.redone.length ≤ h.capacity

/-- The states of a history around the present one. -/
def timeline (h : History σ) (present : σ) : Timeline σ := ⟨h.undone, present, h.redone⟩

/-- A capacity that is accepted is not zero. -/
theorem ofCapacity_eq_ok {n : Int} {h : History σ} (hn : ofCapacity n = .ok h) :
    ∃ capacity, 0 < capacity ∧ h = empty capacity := by
  rw [ofCapacity] at hn
  split at hn
  next => cases hn
  next hpos =>
    split at hn
    next => cases hn
    next =>
      cases hn
      exact ⟨n.toNat, by omega, rfl⟩

theorem balanced_empty (capacity : Nat) : Balanced (empty (σ := σ) capacity) := Nat.zero_le _

theorem Balanced.push {h : History σ} (s : σ) : Balanced (h.push s) := by
  simp only [Balanced, History.push, List.length_take, List.length_nil]
  omega

theorem Balanced.clear (h : History σ) : Balanced h.clear := Nat.zero_le _

/-- A step back takes the newest state of one list and parks the present one on the other. -/
theorem undo_eq_some {h g : History σ} {present s : σ} (hu : h.undo? present = some (s, g)) :
    ∃ rest, h.undone = s :: rest ∧
      g = ⟨h.capacity, rest, (present :: h.redone).take h.capacity⟩ := by
  rw [undo?] at hu
  split at hu
  next => cases hu
  next t rest hrest =>
    cases hu
    exact ⟨rest, hrest, rfl⟩

/-- A step forward does the same the other way round. -/
theorem redo_eq_some {h g : History σ} {present s : σ} (hr : h.redo? present = some (s, g)) :
    ∃ rest, h.redone = s :: rest ∧
      g = ⟨h.capacity, (present :: h.undone).take h.capacity, rest⟩ := by
  rw [redo?] at hr
  split at hr
  next => cases hr
  next t rest hrest =>
    cases hr
    exact ⟨rest, hrest, rfl⟩

/-- Nothing is dropped when the present state is parked. -/
theorem Balanced.undo {h g : History σ} {present s : σ} (hb : h.Balanced)
    (hu : h.undo? present = some (s, g)) :
    g.Balanced ∧ (h.timeline present).back? = some (g.timeline s) := by
  obtain ⟨rest, hrest, rfl⟩ := undo_eq_some hu
  rw [Balanced, hrest, List.length_cons] at hb
  have hfit : (present :: h.redone).take h.capacity = present :: h.redone :=
    List.take_of_length_le (by rw [List.length_cons]; omega)
  rw [hfit]
  constructor
  · show rest.length + (h.redone.length + 1) ≤ h.capacity
    omega
  · simp only [timeline, Timeline.back?, hrest]

theorem Balanced.redo {h g : History σ} {present s : σ} (hb : h.Balanced)
    (hr : h.redo? present = some (s, g)) :
    g.Balanced ∧ (h.timeline present).forward? = some (g.timeline s) := by
  obtain ⟨rest, hrest, rfl⟩ := redo_eq_some hr
  rw [Balanced, hrest, List.length_cons] at hb
  have hfit : (present :: h.undone).take h.capacity = present :: h.undone :=
    List.take_of_length_le (by rw [List.length_cons]; omega)
  rw [hfit]
  constructor
  · show h.undone.length + 1 + rest.length ≤ h.capacity
    omega
  · simp only [timeline, Timeline.forward?, hrest]

theorem capacity_undo {h g : History σ} {present s : σ} (hu : h.undo? present = some (s, g)) :
    g.capacity = h.capacity := by
  obtain ⟨rest, -, rfl⟩ := undo_eq_some hu
  rfl

theorem capacity_redo {h g : History σ} {present s : σ} (hr : h.redo? present = some (s, g)) :
    g.capacity = h.capacity := by
  obtain ⟨rest, -, rfl⟩ := redo_eq_some hr
  rfl

/-- An undo that finds nothing stands at the beginning of the timeline. -/
theorem undo_eq_none {h : History σ} {present : σ} (hu : h.undo? present = none) :
    (h.timeline present).back? = none := by
  rw [undo?] at hu
  split at hu
  next hnil => simp only [timeline, Timeline.back?, hnil]
  next => cases hu

theorem redo_eq_none {h : History σ} {present : σ} (hr : h.redo? present = none) :
    (h.timeline present).forward? = none := by
  rw [redo?] at hr
  split at hr
  next hnil => simp only [timeline, Timeline.forward?, hnil]
  next => cases hr

/-! ## Undo points -/

/-- A new undo point comes before the old ones, and only if there is no room the oldest goes. -/
theorem undone_push {h : History σ} (hb : h.Balanced) (hpos : 0 < h.capacity) (s : σ) :
    (h.push s).undone =
      s :: if h.undone.length < h.capacity then h.undone else h.undone.dropLast := by
  obtain ⟨room, hroom⟩ : ∃ room, h.capacity = room + 1 := ⟨h.capacity - 1, by omega⟩
  rw [Balanced] at hb
  rw [push, hroom, List.take_succ_cons]
  split
  next hlt => rw [List.take_of_length_le (by omega)]
  next hfull =>
    have hlength : h.undone.length - 1 = room := by omega
    rw [List.dropLast_eq_take, hlength]

/-- An undo leads to the newest undo point. -/
theorem exists_undo {h : History σ} {s : σ} {rest : List σ} (hu : h.undone = s :: rest)
    (present : σ) : ∃ g, h.undo? present = some (s, g) := by
  refine ⟨⟨h.capacity, rest, (present :: h.redone).take h.capacity⟩, ?_⟩
  rw [undo?, hu]

/-! ## Which states there are -/

/-- Parking the present state and dropping the oldest makes no new state. -/
theorem mem_take_cons {l : List σ} {n : Nat} {s x : σ} (hx : x ∈ (s :: l).take n) :
    x = s ∨ x ∈ l :=
  List.mem_cons.mp (List.mem_of_mem_take hx)

/-- A step back makes no new state. -/
theorem mem_states_undo {h g : History σ} {present s x : σ}
    (hu : h.undo? present = some (s, g)) (hx : x ∈ (g.timeline s).states) :
    x ∈ (h.timeline present).states := by
  obtain ⟨rest, hrest, rfl⟩ := undo_eq_some hu
  simp only [Timeline.mem_states, timeline, hrest, List.mem_cons] at hx ⊢
  rcases hx with rfl | hx | hx
  · simp
  · simp [hx]
  · rcases mem_take_cons hx with rfl | hx
    · simp
    · simp [hx]

theorem mem_states_redo {h g : History σ} {present s x : σ}
    (hr : h.redo? present = some (s, g)) (hx : x ∈ (g.timeline s).states) :
    x ∈ (h.timeline present).states := by
  obtain ⟨rest, hrest, rfl⟩ := redo_eq_some hr
  simp only [Timeline.mem_states, timeline, hrest, List.mem_cons] at hx ⊢
  rcases hx with rfl | hx | hx
  · simp
  · rcases mem_take_cons hx with rfl | hx
    · simp
    · simp [hx]
  · simp [hx]

theorem mem_states_push {h : History σ} {s present x : σ}
    (hx : x ∈ ((h.push s).timeline present).states) :
    x = present ∨ x ∈ (h.timeline s).states := by
  simp only [Timeline.mem_states, timeline, push] at hx ⊢
  rcases hx with rfl | hx | hx
  · exact .inl rfl
  · rcases mem_take_cons hx with rfl | hx
    · simp
    · simp [hx]
  · cases hx

/-- What one step back keeps, many keep. -/
theorem undoMany_induction {motive : σ → History σ → Prop}
    (step : ∀ s h t g, motive s h → h.undo? s = some (t, g) → motive t g) (n : Nat) {s : σ}
    {h : History σ} (hs : motive s h) : motive (undoMany n s h).1 (undoMany n s h).2 := by
  induction n generalizing s h with
  | zero => exact hs
  | succ n ih =>
      rw [undoMany]
      cases hu : h.undo? s with
      | none => exact hs
      | some tg => exact ih (step s h tg.1 tg.2 hs hu)

/-- What one step back keeps, a return to a recorded state keeps. -/
theorem restoreTo_induction {motive : σ → History σ → Prop}
    (step : ∀ s h t g, motive s h → h.undo? s = some (t, g) → motive t g) {index : Int} {s t : σ}
    {h g : History σ} (hs : motive s h) (hg : h.restoreTo? index s = some (t, g)) :
    motive t g := by
  rw [restoreTo?] at hg
  split at hg
  next => cases hg
  next =>
    have hmany := undoMany_induction step (index.toNat + 1) hs
    rwa [Option.some.inj hg] at hmany

end History

end PageDesign
