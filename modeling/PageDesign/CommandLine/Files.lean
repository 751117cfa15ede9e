/-
# PageDesign.CommandLine.Files -- the files that a command sees

A command sees files as texts under their paths.  A path is shown without empty and single-dot
parts.  It is followed part by part: a double dot leads back, but only from a directory.  Text
that is read has a line feed at each line end.
-/
import PageDesign.Keyed
import PageDesign.Text.Lines
import PageDesign.Text.Quoted
import PageDesign.Text.Search

namespace PageDesign

/-! ## Paths -/

/-- A path: the slashes with which it begins, and its parts.  Two slashes in front are kept,
and more count as one. -/
structure Path where
  root : String
  parts : List String
  deriving DecidableEq, Repr

namespace Path

/-- A path from its text. -/
def ofString (s : String) : Path :=
  let parts := (Text.splitAtEach '/' s.toList).map String.ofList
  let slashes := (s.toList.takeWhile (· == '/')).length
  let root := if slashes = 0 then "" else if slashes = 2 then "//" else "/"
  ⟨root, parts.filter fun p => p != "" && p != "."⟩

/-- The text of a path. -/
def text (p : Path) : String :=
  if p.root.isEmpty && p.parts.isEmpty then "." else p.root ++ "/".intercalate p.parts

/-- Whether a path begins at the root. -/
def isAbsolute (p : Path) : Bool := !p.root.isEmpty

/-- The directory that a path begins at. -/
def start (p : Path) : Path := ⟨if p.isAbsolute then "/" else "", []⟩

/-- The path of the directory that holds a path. -/
def parent (p : Path) : Path := { p with parts := p.parts.dropLast }

/-- Parts after which double dots have led back, kept in reverse. -/
def backward (done : List String) (part : String) : List String :=
  match part, done with
  | "..", last :: rest => if last = ".." then part :: done else rest
  | _, _ => part :: done

/-- A path without double dots, as far as they lead back.  Nothing lies before the root. -/
def resolved (p : Path) : Path :=
  let parts := (p.parts.foldl backward []).reverse
  { p.start with parts := if p.isAbsolute then parts.dropWhile (· == "..") else parts }

end Path

/-! ## Files -/

/-- Why a file cannot be read or written. -/
inductive FileError where
  | isDirectory (path : Path)
  | fileExists (path : Path)
  | notDirectory (path : Path)
  | nameTooLong (path : Path)
  deriving DecidableEq, Repr

/-- The words for a file error. -/
def FileError.message : FileError → String
  | isDirectory p => "Is a directory: " ++ Text.quoted p.text
  | fileExists p => "File exists: " ++ Text.quoted p.text
  | notDirectory p => "Not a directory: " ++ Text.quoted p.text
  | nameTooLong p => "File name too long: " ++ Text.quoted p.text

/-- Texts under their paths, and directories that hold none of them. -/
structure Files where
  texts : Keyed String := []
  directories : List Path := []

/-- What a path leads to. -/
inductive Found where
  | directory (place : Path)
  | file (text : String)
  | missing
  /-- A file stands where a directory would have to be. -/
  | blocked
  | nameTooLong
  deriving DecidableEq, Repr

namespace Files

/-- Whether a place is a directory: it is known as one, or some file lies below it. -/
def isDirectory (fs : Files) (place : Path) : Bool :=
  fs.directories.contains place || fs.texts.any fun f =>
    let other := Path.ofString f.1
    other.isAbsolute == place.isAbsolute && place.parts.isPrefixOf other.parts &&
      place.parts.length < other.parts.length

/-- The most bytes in a name. -/
def maxNameSize : Nat := 255

/-- The most bytes in a path. -/
def maxPathSize : Nat := 4095

/-- Whether a path has too many bytes to be followed. -/
def isTooLong (p : Path) : Bool := maxPathSize < p.text.utf8ByteSize

/-- What the parts of a path lead to from a directory. -/
def follow (fs : Files) (place : Path) : List String → Found
  | [] => .directory place
  | part :: rest =>
    let next : Path := { place with parts := place.parts ++ [part] }
    if part = ".." then follow fs next.resolved rest
    else if maxNameSize < part.utf8ByteSize then .nameTooLong
    else
      match fs.texts.lookup next.text with
      | some text => if rest.isEmpty then .file text else .blocked
      | none => if fs.isDirectory next then follow fs next rest else .missing

/-- What a path leads to. -/
def find (fs : Files) (p : Path) : Found :=
  if isTooLong p then .nameTooLong else fs.follow p.start p.parts

/-- The text of a file. -/
def text? (fs : Files) (p : Path) : Option String :=
  match fs.find p with
  | .file text => some text
  | _ => none

/-- The text of a file with its line ends made one, if there is anything under the path. -/
def read (fs : Files) (p : Path) : Except FileError (Option String) :=
  match fs.find p with
  | .directory _ => .error (.isDirectory p)
  | .file text => .ok (some (String.ofList (Text.unifyLineEnds text.toList)))
  | .missing => .ok none
  | .blocked => .ok none
  | .nameTooLong => .error (.nameTooLong p)

/-- Makes the directory of a path whose last part stands in an existing directory. -/
def makeLast (fs : Files) (p : Path) : Except FileError Files :=
  match fs.find p with
  | .directory _ => .ok fs
  | .file _ => .error (.fileExists p)
  | .missing => .ok { fs with directories := p.resolved :: fs.directories }
  | .blocked => .error (.notDirectory p)
  | .nameTooLong => .error (.nameTooLong p)

/-- Makes the directory of a path, given by its parts in reverse, and the directories on the
way that are missing. -/
def makeDirectories (fs : Files) (root : String) : List String → Except FileError Files
  | [] => .ok fs
  | last :: before => do
    let p : Path := ⟨root, (last :: before).reverse⟩
    if isTooLong p then throw (.nameTooLong p)
    match fs.find p.parent with
    | .directory _ => fs.makeLast p
    | .missing => (← fs.makeDirectories root before).makeLast p
    | .file _ => throw (.notDirectory p)
    | .blocked => throw (.notDirectory p)
    | .nameTooLong => throw (.nameTooLong p)

/-- Whether a file can be written, in directories that are made where they are missing. -/
def checkWritable (fs : Files) (p : Path) : Except FileError Unit := do
  let made ← fs.makeDirectories p.root p.parent.parts.reverse
  match made.find p with
  | .directory _ => throw (.isDirectory p)
  | .file _ => return
  | .missing => return
  | .blocked => throw (.notDirectory p)
  | .nameTooLong => throw (.nameTooLong p)

end Files

end PageDesign
