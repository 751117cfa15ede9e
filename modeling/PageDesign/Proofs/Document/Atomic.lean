/-
# PageDesign.Proofs.Document.Atomic -- a mutation happens as a whole or not at all

A mutation that declines leaves the document as it was, with both lists of its history.  One
that does not decline leaves exactly one undo point, with the components and the selection from
before, forgets what could be redone, and can be taken back by the next undo.

That a change is made as a whole must also hold of the effects in their order.  Some mutations
keep the present state, edit the forest in place and record what they kept if the edit says that it
was made; others record first and do not ask whether the edit was made.  `runInPlace` has the
effects of every mutation in this order, with the forest that an edit leaves behind even where it
declines, and `runInPlace_eq` says that the outcome is the same.  A move to another place takes a
tree out before it puts it in again.  It declines only before that (`declines_moveTo_iff`): a tree
that was taken out always finds its place.
-/
import PageDesign.Proofs.Document.Run
import PageDesign.Proofs.Forest.Inverse
import PageDesign.Proofs.Forest.Swap

namespace PageDesign

/-! ## Edits of forests in place -/

namespace Forest

variable {ι : Type} [DecidableEq ι]

/-- A removal as it is made in place: the tree that is taken out, and the forest that is left. -/
def removeInPlace (f : Forest ι) (id : ι) : Option (Component ι) × Forest ι :=
  match f.locate? id with
  | none => (none, f)
  | some a => (f.at? a, f.removeAt a)

/-- A replacement as it is made in place: whether it is made, and the forest that is left. -/
def replaceInPlace (f : Forest ι) (id : ι) (c : Component ι) : Bool × Forest ι :=
  match f.locate? id with
  | none => (false, f)
  | some a => (true, f.replaceAt a c)

theorem removeInPlace_eq (f : Forest ι) (id : ι) :
    f.removeInPlace id =
      match f.remove? id with
      | some (c, g) => (some c, g)
      | none => (none, f) := by
  unfold removeInPlace remove?
  cases h : f.locate? id with
  | none => rfl
  | some a =>
      obtain ⟨c, hc, -⟩ := locate_holds h
      simp only [Option.bind_eq_bind, Option.bind_some, hc.at?]
      rfl

theorem replaceInPlace_eq (f : Forest ι) (id : ι) (c : Component ι) :
    f.replaceInPlace id c = ((f.replace? id c).isSome, (f.replace? id c).getD f) := by
  unfold replaceInPlace replace?
  cases f.locate? id <;> rfl

end Forest

/-! ## The order of effects -/

namespace Document

variable {d : Document} {id : Id} {c : Component Id} {description : String}

/-- A change that is recorded after it was made: the present state is kept, the edit is made in
place, and what was kept becomes an undo point if the edit says that it was made.  The document
has the forest that the edit leaves in either case. -/
def attempt (d : Document) (description : String) (edit : Forest Id → Bool × Forest Id) :
    Bool × Document :=
  let before := d.snapshot description
  let (made, left) := edit d.components
  let edited := { d with components := left }
  (made, if made then { edited with history := edited.history.push before } else edited)

/-- A change that is recorded before it is made.  Whether it was made is not asked. -/
def recordThen (d : Document) (description : String) (edit : Forest Id → Bool × Forest Id) :
    Document :=
  let recorded := d.record description
  { recorded with components := (edit recorded.components).2 }

/-- What a change that may be refused, and may not happen, answers, and the document after it. -/
def afterwards (d : Document) : Except Offence (Option Document) → Except Offence Bool × Document
  | .error e => (.error e, d)
  | .ok e => (.ok e.isSome, e.getD d)

/-- The addition of a last child.  It is checked, and then attempted. -/
def addChildInPlace (d : Document) (parent : Id) (c : Component Id) :
    Except Offence Bool × Document :=
  match d.checkIncoming c with
  | .error e => (.error e, d)
  | .ok () =>
    let (made, e) := d.attempt "Add Child Component" fun f => f.addInPlace parent c
    (.ok made, e)

/-- A removal.  The selection is looked at when the tree is out and the change is recorded. -/
def removeInPlace (d : Document) (id : Id) : Bool × Document :=
  let before := d.snapshot "Remove Component"
  let (removed, left) := d.components.removeInPlace id
  let edited := { d with components := left }
  match removed with
  | none => (false, edited)
  | some c =>
    let recorded := { edited with history := edited.history.push before }
    let inside := (recorded.selection?.map (Forest.contains [c])).getD false
    (true, if inside then { recorded with selected := none } else recorded)

/-- The second half of a replacement: what comes in is checked and recorded before it is put in. -/
def commitInPlace (d : Document) (id : Id) (c : Component Id) (description : String) :
    Except Offence Bool × Document :=
  let candidate := c.withId id
  match d.checkIncoming candidate (some id) with
  | .error e => (.error e, d)
  | .ok () => (.ok true, d.recordThen description fun f => f.replaceInPlace id candidate)

/-- A replacement. -/
def replaceInPlace (d : Document) (id : Id) (c : Component Id) : Except Offence Bool × Document :=
  if d.components.contains id then d.commitInPlace id c "Replace Component" else (.ok false, d)

/-- A change of a component, made on a copy of it. -/
def updateInPlace (d : Document) (id : Id) (change : Component Id → Component Id) :
    Except Offence Bool × Document :=
  match d.components.get? id with
  | none => (.ok false, d)
  | some c => d.commitInPlace id (change c) "Update Component"

/-- A move among siblings.  One by nothing declines before it is tried. -/
def moveInPlace (d : Document) (id : Id) (offset : Int) : Bool × Document :=
  if offset < 0 then d.attempt "Move Component Up" fun f => f.swapInPlace id offset
  else if 0 < offset then d.attempt "Move Component Down" fun f => f.swapInPlace id offset
  else (false, d)

/-- A move to another place. -/
def moveToInPlace (d : Document) (id : Id) (parent : Option Id) (index : Int) : Bool × Document :=
  d.attempt "Move Component" fun f => f.moveInPlace id parent index

/-- A copy.  The place behind the source is looked for again when the change is recorded. -/
def duplicateInPlace (d : Document) (id : Id) (n : Minted) : Option Id × Document × Minted :=
  match d.components.get? id, (d.components.crumbs? id).map fun path =>
      (path.dropLast.getLast?, path.getLast?) with
  | some source, some (parent, some last) =>
    let (copy, n) := source.remint n
    let e := d.recordThen "Duplicate Component" fun f =>
      f.insertInPlace (parent.map (·.id)) (last.index + 1) copy
    (some copy.id, e, n)
  | _, _ => (none, d, n)

/-- An edit that leaves the forest as it was where it is not made leaves the document as it was. -/
theorem attempt_eq {edit : Forest Id → Bool × Forest Id} {r : Option (Forest Id)}
    (h : edit d.components = (r.isSome, r.getD d.components)) :
    d.attempt description edit = (r.isSome,
      (r.map fun f => { d.record description with components := f }).getD d) := by
  rw [attempt, h]
  cases r <;> rfl

/-- An edit that is made is the one that was recorded. -/
theorem recordThen_eq {edit : Forest Id → Bool × Forest Id} {f : Forest Id}
    (h : edit d.components = (true, f)) :
    d.recordThen description edit = { d.record description with components := f } := by
  rw [recordThen, show (d.record description).components = d.components from rfl, h]

theorem addChildInPlace_eq (d : Document) (parent : Id) (c : Component Id) :
    d.addChildInPlace parent c = d.afterwards (d.addChild parent c) := by
  rw [addChildInPlace, addChild, attempt_eq (Forest.addInPlace_eq d.components parent c)]
  cases d.checkIncoming c with
  | error e => rfl
  | ok u => cases d.components.addChild? parent c <;> rfl

theorem removeInPlace_eq (d : Document) (id : Id) :
    d.removeInPlace id = ((d.remove? id).isSome, (d.remove? id).getD d) := by
  rw [removeInPlace, remove?, Forest.removeInPlace_eq]
  cases d.components.remove? id with
  | none => rfl
  | some r =>
      obtain ⟨removed, f⟩ := r
      -- neither the removal nor the record of it touches the selection
      have hselection (g : Forest Id) (h : History Snapshot) :
          selection? { d with components := g, history := h } = d.selection? := rfl
      dsimp only [Option.map_some, Option.isSome_some, Option.getD_some]
      rw [hselection]
      split <;> rfl

theorem commitInPlace_eq (hid : id ∈ d.components.ids) :
    d.commitInPlace id c description = d.afterwards (d.commit id c description) := by
  obtain ⟨f, hf⟩ : ∃ f, d.components.replace? id (c.withId id) = some f := by
    obtain ⟨a, -, ha, -⟩ := Forest.exists_locate hid
    exact ⟨_, by rw [Forest.replace?, ha]; rfl⟩
  have hedit : d.components.replaceInPlace id (c.withId id) = (true, f) := by
    rw [Forest.replaceInPlace_eq, hf]
    rfl
  rw [commitInPlace, commit, recordThen_eq hedit]
  cases d.checkIncoming (c.withId id) (some id) with
  | error e => rfl
  | ok u =>
      rw [hf]
      rfl

theorem replaceInPlace_eq (d : Document) (id : Id) (c : Component Id) :
    d.replaceInPlace id c = d.afterwards (d.replace id c) := by
  rw [replaceInPlace, replace]
  split
  next h => exact commitInPlace_eq (Forest.contains_iff.mp h)
  next => rfl

theorem updateInPlace_eq (d : Document) (id : Id) (change : Component Id → Component Id) :
    d.updateInPlace id change = d.afterwards (d.update id change) := by
  rw [updateInPlace, update]
  cases hget : d.components.get? id with
  | none => rfl
  | some c => exact commitInPlace_eq (Forest.get_isSome_iff.mp (by rw [hget]; rfl))

theorem moveToInPlace_eq (d : Document) (id : Id) (parent : Option Id) (index : Int) :
    d.moveToInPlace id parent index =
      ((d.moveTo? id parent index).isSome, (d.moveTo? id parent index).getD d) := by
  have hedit : d.components.moveInPlace id parent index =
      ((d.components.moveTo? id parent index).isSome,
        (d.components.moveTo? id parent index).getD d.components) := by
    rw [Forest.moveInPlace_eq]
    cases d.components.moveTo? id parent index <;> rfl
  rw [moveToInPlace, attempt_eq hedit, moveTo?, Option.isSome_map]

theorem moveInPlace_eq (d : Document) (id : Id) (offset : Int) :
    d.moveInPlace id offset = ((d.move? id offset).isSome, (d.move? id offset).getD d) := by
  have hedit : d.components.swapInPlace id offset =
      ((d.components.move? id offset).isSome,
        (d.components.move? id offset).getD d.components) := by
    rw [Forest.swapInPlace_eq]
    cases d.components.move? id offset <;> rfl
  rw [moveInPlace, move?, Option.isSome_map]
  split
  next => rw [attempt_eq hedit]
  next hup =>
    split
    next => rw [attempt_eq hedit]
    next hdown =>
      have hoffset : offset = 0 := by omega
      have hnone : d.components.move? id offset = none := by
        simp [Forest.move?, hoffset]
      rw [hnone]
      rfl

theorem duplicateInPlace_eq (d : Document) (id : Id) (n : Minted) :
    d.duplicateInPlace id n =
      match d.duplicate? id n with
      | some (copy, e, m) => (some copy, e, m)
      | none => (none, d, n) := by
  rw [duplicateInPlace, duplicate?]
  cases d.components.get? id with
  | none => rfl
  | some source =>
      cases d.components.crumbs? id with
      | none => rfl
      | some path =>
          simp only [Option.map_some, Option.bind_eq_bind, Option.bind_some]
          cases path.getLast? with
          | none => rfl
          | some last =>
              simp only [recordThen, Forest.insertInPlace_eq]
              rfl

end Document

namespace Session

/-- The reply to a checked change with what it has left. -/
def replied (s : Session) : Except Offence Bool × Document → Reply × Session
  | (.ok made, d) => (.accepted made, { s with document := d })
  | (.error e, d) => (.refused e, { s with document := d })

/-- A command with its effects one after the other.  The commands that are not listed have no
effect before they decline, as they are run. -/
def runInPlace (s : Session) : Command → Reply × Session
  | .addChild parent c => s.replied (s.document.addChildInPlace parent c)
  | .remove id =>
    let (made, d) := s.document.removeInPlace id
    (.did made, { s with document := d })
  | .replace id c => s.replied (s.document.replaceInPlace id c)
  | .update id change => s.replied (s.document.updateInPlace id change)
  | .patch id fields =>
    match s.document.components.get? id with
    | none => (.accepted false, s)
    | some c =>
      match Patch.apply fields c s.minted with
      | .fail issues => (.unreadable (.schema issues), s)
      | .ok (new, n) => { s with minted := n }.replied (s.document.updateInPlace id fun _ => new)
  | .move id offset =>
    let (made, d) := s.document.moveInPlace id offset
    (.did made, { s with document := d })
  | .moveTo id parent index =>
    let (made, d) := s.document.moveToInPlace id parent index
    (.did made, { s with document := d })
  | .duplicate id =>
    let (copy, d, n) := s.document.duplicateInPlace id s.minted
    (.named copy, ⟨d, n⟩)
  | .paste payload (some parent) =>
    match Document.readCopy payload s.minted with
    | .error e => (.unreadable e, s)
    | .ok (c, n) =>
      match s.document.addChildInPlace parent c with
      | (.error e, d) => (.refused e, ⟨d, n⟩)
      | (.ok false, d) => (.refused (Document.cannotHold parent), ⟨d, n⟩)
      | (.ok true, d) => (.added c.id, ⟨d, n⟩)
  | cmd => s.run cmd

theorem replied_afterwards (s : Session) (r : Except Offence (Option Document)) :
    s.replied (s.document.afterwards r) = s.checked r := by
  cases r <;> rfl

/-- With its effects in their order a command leaves what it leaves as a whole. -/
theorem runInPlace_eq (s : Session) (cmd : Command) : s.runInPlace cmd = s.run cmd := by
  cases cmd with
  | addChild parent c =>
      rw [runInPlace, Document.addChildInPlace_eq, replied_afterwards, run]
  | remove id =>
      rw [runInPlace, Document.removeInPlace_eq]
      rfl
  | replace id c => rw [runInPlace, Document.replaceInPlace_eq, replied_afterwards, run]
  | update id change => rw [runInPlace, Document.updateInPlace_eq, replied_afterwards, run]
  | patch id fields =>
      rw [runInPlace, run, patch]
      cases s.document.components.get? id with
      | none => rfl
      | some c =>
          dsimp only
          cases Patch.apply fields c s.minted with
          | fail issues => rfl
          | ok r =>
              obtain ⟨new, n⟩ := r
              dsimp only
              rw [Document.updateInPlace_eq]
              exact replied_afterwards ⟨s.document, n⟩ _
  | move id offset =>
      rw [runInPlace, Document.moveInPlace_eq]
      rfl
  | moveTo id parent index =>
      rw [runInPlace, Document.moveToInPlace_eq]
      rfl
  | duplicate id =>
      rw [runInPlace, Document.duplicateInPlace_eq, run]
      cases s.document.duplicate? id s.minted <;> rfl
  | paste payload parent =>
      cases parent with
      | none => rfl
      | some parent =>
          rw [runInPlace, run]
          cases hcopy : Document.readCopy payload s.minted with
          | error e =>
              rw [Document.paste, hcopy]
              rfl
          | ok r =>
              obtain ⟨c, n⟩ := r
              rw [Document.paste_of_readCopy s.document (some parent) hcopy]
              simp only [Document.addChildInPlace_eq, Document.putIn]
              cases s.document.addChild parent c with
              | error e => rfl
              | ok e => cases e <;> rfl
  | _ => rfl

end Session

/-! ## Undo points -/

/-- A document with one more undo point than another. -/
structure Document.Follows (e d : Document) (point : Snapshot) : Prop where
  state : point.state = (d.components, d.selected)
  capacity : e.history.capacity = d.history.capacity
  undone : e.history.undone = point ::
    if d.history.undone.length < d.history.capacity then d.history.undone
    else d.history.undone.dropLast
  redone : e.history.redone = []

namespace Session

variable {s : Session} {cmd : Command}

/-- What was recorded has the state from before as its newest undo point. -/
theorem follows_of_recorded {d e : Document} {f : Forest Id} {selected : Option Id}
    (hb : d.history.Balanced) (hpos : 0 < d.history.capacity) (h : d.Recorded e f selected) :
    ∃ point, e.Follows d point := by
  obtain ⟨description, rfl⟩ := h
  exact ⟨d.snapshot description, rfl, rfl, History.undone_push hb hpos _, rfl⟩

/-- An undo goes to the newest undo point. -/
theorem undo_of_follows {d : Document} {point : Snapshot}
    (h : s.document.Follows d point) :
    (s.run .undo).1 = .did true ∧ (s.run .undo).2.document.components = d.components ∧
      (s.run .undo).2.document.selected = d.selected := by
  obtain ⟨hcomponents, hselected⟩ := Prod.mk.inj h.state
  obtain ⟨g, hg⟩ := History.exists_undo h.undone s.document.snapshot
  have hrun : s.run .undo = (.did true, { s with document := s.document.restore point g }) := by
    rw [run, Document.undo?, hg]
    rfl
  rw [hrun]
  exact ⟨rfl, hcomponents, hselected⟩

/-- A move to another place declines exactly if what is to move does not occur or may not move
there, and so never when the tree was already taken out. -/
theorem declines_moveTo_iff {id : Id} {parent : Option Id} {index : Int} :
    s.Declines (.moveTo id parent index) ↔
      ¬ ∃ moving, s.document.components.get? id = some moving ∧
        ∀ p, parent = some p → s.document.components.mayHold moving p = true := by
  rw [← Forest.moveTo_isSome_iff index]
  cases hmove : s.document.components.moveTo? id parent index with
  | none => simp [Declines, run, changed, Document.moveTo?, hmove, Reply.Declines]
  | some f => simp [Declines, run, changed, Document.moveTo?, hmove, Reply.Declines]

/-- In every session that arises, by whatever commands, a mutation either declines and leaves the
document with its history as it was, or it does not decline, leaves one undo point with the
state from before and nothing to redo, and is taken back by the next undo.  By `runInPlace_eq` this
is also what its effects come to, one after the other. -/
theorem run_atomic (hs : Arises (fun _ _ => True) s) (hcmd : cmd.Mutates) :
    (s.Declines cmd ∧ (s.run cmd).2.document = s.document) ∨
      (¬ s.Declines cmd ∧ (∃ point, (s.run cmd).2.document.Follows s.document point) ∧
        ((s.run cmd).2.run .undo).1 = .did true ∧
        ((s.run cmd).2.run .undo).2.document.components = s.document.components ∧
        ((s.run cmd).2.run .undo).2.document.selected = s.document.selected) := by
  rcases run_mutation (s := s) hcmd with hsame | ⟨hdone, f, selected, -, hrecorded⟩
  · exact .inl hsame
  · right
    obtain ⟨point, hpoint⟩ := follows_of_recorded hs.balanced hs.capacity_pos hrecorded
    exact ⟨hdone, ⟨point, hpoint⟩, undo_of_follows hpoint⟩

/-- In the sample, a removal is taken back by the next undo, and a removal of what does not
occur leaves everything as it was. -/
theorem run_atomic_sample :
    Arises (fun _ _ => True) sample ∧
      (¬ sample.Declines (.remove "b") ∧
        (∃ point, (sample.run (.remove "b")).2.document.Follows sample.document point) ∧
        ((sample.run (.remove "b")).2.run .undo).2.document.components =
          sample.document.components) ∧
      (sample.Declines (.remove "c") ∧
        (sample.run (.remove "c")).2.document = sample.document) := by
  have hsample : Arises (fun _ _ => True) sample :=
    arises_sample trivial trivial trivial trivial
  have hdone : ¬ sample.Declines (.remove "b") := by
    rintro (h | ⟨h, -⟩)
    · revert h
      decide +kernel
    · cases h
  have hmissing : sample.Declines (.remove "c") := .inl (by decide +kernel)
  refine ⟨hsample, ?_, ?_⟩
  · rcases run_atomic hsample (show Command.Mutates (.remove "b") from trivial) with ⟨h, -⟩ | h
    · exact absurd h hdone
    · exact ⟨h.1, h.2.1, h.2.2.2.1⟩
  · rcases run_atomic hsample (show Command.Mutates (.remove "c") from trivial) with h | ⟨h, -⟩
    · exact h
    · exact absurd hmissing h

end Session

end PageDesign
