/-
# PageDesign.History -- undo and redo

Two bounded lists of states, both with the newest first.  `undo` holds the states before each
recorded change, `redo` the states that were left by undoing.  Whoever undoes or redoes hands
in the present state, which is parked on the other list.  Recording a change forgets what
could be redone, and a list that is full drops its oldest state.
-/

namespace PageDesign

/-- A history of states of type `σ`. -/
structure History (σ : Type) where
  /-- The most states that each list holds. -/
  capacity : Nat
  /-- States to go back to, the newest first. -/
  undone : List σ
  /-- States to go forward to, the newest first. -/
  redone : List σ
  deriving DecidableEq, Repr

namespace History

variable {σ : Type}

/-- The capacity of a history that states none. -/
def defaultCapacity : Nat := 50

/-- The largest capacity, which is that of a signed word of 64 bits. -/
def maxCapacity : Int := 9223372036854775807

/-- Why a capacity is refused. -/
inductive CapacityError where
  | notPositive
  | tooLarge
  deriving DecidableEq, Repr

/-- The words for a refusal. -/
def CapacityError.message : CapacityError → String
  | notPositive => "max_size must be positive"
  | tooLarge => "Python int too large to convert to C ssize_t"

/-- A history without states. -/
def empty (capacity : Nat) : History σ := ⟨capacity, [], []⟩

/-- A history without states, for a capacity given as an integer, which has to be positive and
to fit its word. -/
def ofCapacity (capacity : Int) : Except CapacityError (History σ) :=
  if capacity ≤ 0 then .error .notPositive
  else if maxCapacity < capacity then .error .tooLarge
  else .ok (empty capacity.toNat)

/-- The number of states to go back to. -/
def size (h : History σ) : Nat := h.undone.length

/-- Whether there is a state to go back to. -/
def canUndo (h : History σ) : Bool := !h.undone.isEmpty

/-- Whether there is a state to go forward to. -/
def canRedo (h : History σ) : Bool := !h.redone.isEmpty

/-- Records the state before a change. -/
def push (h : History σ) (s : σ) : History σ :=
  { h with undone := (s :: h.undone).take h.capacity, redone := [] }

/-- The state to go back to, with the present one parked. -/
def undo? (h : History σ) (present : σ) : Option (σ × History σ) :=
  match h.undone with
  | [] => none
  | s :: rest =>
    some (s, { h with undone := rest, redone := (present :: h.redone).take h.capacity })

/-- The state to go forward to, with the present one parked. -/
def redo? (h : History σ) (present : σ) : Option (σ × History σ) :=
  match h.redone with
  | [] => none
  | s :: rest =>
    some (s, { h with undone := (present :: h.undone).take h.capacity, redone := rest })

/-- Goes back as often as told, or until there is nothing to go back to. -/
def undoMany : Nat → σ → History σ → σ × History σ
  | 0, s, h => (s, h)
  | n + 1, s, h =>
    match h.undo? s with
    | none => (s, h)
    | some (t, h) => undoMany n t h

/-- Goes back to the state at a position among those to go back to, parking all on the way. -/
def restoreTo? (h : History σ) (index : Int) (present : σ) : Option (σ × History σ) :=
  if index < 0 ∨ (h.undone.length : Int) ≤ index then none
  else some (undoMany (index.toNat + 1) present h)

/-- Forgets all states. -/
def clear (h : History σ) : History σ := { h with undone := [], redone := [] }

end History

end PageDesign
