/-
# PageDesign.Document.Command -- everything that can be done to a document

A session is a document together with the number of identities drawn so far.  Each command
turns one session into another and has a reply.
-/
import PageDesign.Document.Text

namespace PageDesign

/-- A document that is being edited. -/
structure Session where
  document : Document
  minted : Minted

/-- What can be done to a document. -/
inductive Command where
  | addRoot (c : Component Id)
  | addRootUnrecorded (c : Component Id)
  | addChild (parent : Id) (c : Component Id)
  | addChildUnrecorded (parent : Id) (c : Component Id)
  | remove (id : Id)
  | replace (id : Id) (c : Component Id)
  | update (id : Id) (change : Component Id → Component Id)
  | patch (id : Id) (fields : Json.Members)
  | move (id : Id) (offset : Int)
  | moveTo (id : Id) (parent : Option Id) (index : Int)
  | duplicate (id : Id)
  | applyTemplate (t : Template)
  | paste (payload : String) (parent : Option Id)
  | clear
  | select (id : Option Id)
  | undo
  | redo
  | restoreTo (index : Int)
  | record (description : String)
  | clearHistory

/-- The answer to a command. -/
inductive Reply where
  /-- Nothing to say. -/
  | done
  /-- Whether the command did something. -/
  | did (b : Bool)
  /-- Whether a checked command did something. -/
  | accepted (b : Bool)
  /-- The identity of a component that passed the checks and came in. -/
  | added (id : Id)
  /-- The identity of a component that came in unchecked, or of a copy, if one was made. -/
  | named (id : Option Id)
  /-- The identities of components that came in. -/
  | addedAll (ids : List Id)
  /-- The change offends against a rule. -/
  | refused (e : Offence)
  /-- What was given cannot be read. -/
  | unreadable (e : OpenError)

namespace Session

/-- The session after a change that may not have happened. -/
def changed (s : Session) (d : Option Document) : Reply × Session :=
  (.did d.isSome, { s with document := d.getD s.document })

/-- The session after a checked change that may not have happened. -/
def checked (s : Session) : Except Offence (Option Document) → Reply × Session
  | .ok d => (.accepted d.isSome, { s with document := d.getD s.document })
  | .error e => (.refused e, s)

/-- The session after a checked change that brings in a component. -/
def incoming (s : Session) (id : Id) : Except Offence Document → Reply × Session
  | .ok d => (.added id, { s with document := d })
  | .error e => (.refused e, s)

/-- Changes fields of a component.  Nothing is checked when the identity does not occur. -/
def patch (s : Session) (id : Id) (fields : Json.Members) : Reply × Session :=
  match s.document.components.get? id with
  | none => (.accepted false, s)
  | some c =>
    match Patch.apply fields c s.minted with
    | .fail issues => (.unreadable (.schema issues), s)
    | .ok (new, n) => checked { s with minted := n } (s.document.update id fun _ => new)

/-- The reply to a command, and the session after it. -/
def run (s : Session) : Command → Reply × Session
  | .addRoot c => s.incoming c.id (s.document.addRoot c)
  | .addRootUnrecorded c =>
    (.named (some c.id), { s with document := s.document.addRootUnrecorded c })
  | .addChild parent c => s.checked (s.document.addChild parent c)
  | .addChildUnrecorded parent c => s.changed (s.document.addChildUnrecorded? parent c)
  | .remove id => s.changed (s.document.remove? id)
  | .replace id c => s.checked (s.document.replace id c)
  | .update id change => s.checked (s.document.update id change)
  | .patch id fields => s.patch id fields
  | .move id offset => s.changed (s.document.move? id offset)
  | .moveTo id parent index => s.changed (s.document.moveTo? id parent index)
  | .duplicate id =>
    match s.document.duplicate? id s.minted with
    | some (copy, d, n) => (.named (some copy), ⟨d, n⟩)
    | none => (.named none, s)
  | .applyTemplate t =>
    let (ids, d, n) := s.document.applyTemplate t s.minted
    (.addedAll ids, ⟨d, n⟩)
  | .paste payload parent =>
    match s.document.paste payload parent s.minted with
    | .error e => (.unreadable e, s)
    | .ok (.error e, n) => (.refused e, { s with minted := n })
    | .ok (.ok (id, d), n) => (.added id, ⟨d, n⟩)
  | .clear => (.done, { s with document := s.document.clear })
  | .select id => s.changed (s.document.select? id)
  | .undo => s.changed s.document.undo?
  | .redo => s.changed s.document.redo?
  | .restoreTo index => s.changed (s.document.restoreTo? index)
  | .record description => (.done, { s with document := s.document.record description })
  | .clearHistory =>
    (.done, { s with document := { s.document with history := s.document.history.clear } })

/-- The session after a sequence of commands. -/
def runAll (s : Session) (commands : List Command) : Session :=
  commands.foldl (fun s c => (s.run c).2) s

end Session

end PageDesign
