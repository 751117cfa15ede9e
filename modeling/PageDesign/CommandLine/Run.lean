/-
# PageDesign.CommandLine.Run -- the commands of the studio

Four commands export a stored design, list the targets, list the templates, and make a design
from a template.  A command sees the environment and the files, and its ending says what to
print and what to write; nothing is printed to the output and written when it fails.
-/
import PageDesign.CommandLine.Arguments
import PageDesign.CommandLine.Files
import PageDesign.Document.Text
import PageDesign.Export.Exporter
import PageDesign.Log
import PageDesign.Settings.Environment
import PageDesign.Template.BuiltIn
import PageDesign.Text.Terminal

namespace PageDesign.CommandLine

/-! ## Requests -/

/-- What a command line asks for. -/
inductive Request where
  | exportDesign (document : Path) (target : String) (output : Option Path)
  | targets
  | templates (query : Option String)
  | new (template : String) (output : Option Path)
  deriving DecidableEq, Repr

/-- The option that asks for help. -/
def help : Switch := ⟨"--help", none, false⟩

/-- The option that asks for the version. -/
def version : Switch := ⟨"--version", some 'V', false⟩

/-- The option for a file to write to. -/
def output : Switch := ⟨"--output", some 'o', true⟩

/-- The commands. -/
inductive Subcommand where
  | exportDesign
  | targets
  | templates
  | new
  deriving DecidableEq, Repr

instance : Choice Subcommand where
  all := [.exportDesign, .targets, .templates, .new]
  name
    | .exportDesign => "export"
    | .targets => "targets"
    | .templates => "templates"
    | .new => "new"

namespace Subcommand

/-- The options of a command. -/
def switches : Subcommand → List Switch
  | exportDesign => [⟨"--target", some 't', true⟩, output, help]
  | targets => [help]
  | templates => [⟨"--search", some 's', true⟩, help]
  | new => [output, help]

/-- The words that a command takes. -/
def words : Subcommand → List String
  | exportDesign => ["DOCUMENT"]
  | new => ["TEMPLATE_ID"]
  | _ => []

/-- The path that an argument names.  No path holds a null character. -/
def pathOf (name s : String) : Except Misuse Path :=
  if s.toList.contains '\x00' then .error (.noPath name) else .ok (Path.ofString s)

/-- The request that arguments make, once their words are counted. -/
def request (c : Subcommand) (s : Sorted) (word : String) : Except Misuse Request := do
  let output ← (s.value? "--output").mapM (pathOf "--output")
  match c with
  | exportDesign =>
    return .exportDesign (← pathOf "DOCUMENT" word) ((s.value? "--target").getD "leptos") output
  | targets => return .targets
  | templates => return .templates (s.value? "--search")
  | new => return .new word output

end Subcommand

/-! ## Endings -/

/-- How a run ends. -/
inductive Ending where
  /-- The command ran. -/
  | done (stdout stderr : String) (written : List (Path × String))
  /-- The command failed, with words for the user. -/
  | failed (stderr : String)
  /-- The command line cannot be understood. -/
  | misused (e : Misuse)
  /-- The settings cannot be used. -/
  | badSettings (issues : List Schema.Issue)
  /-- The settings name no level of the log. -/
  | badLevel (e : Log.LevelError)
  /-- A file cannot be used. -/
  | badFile (e : FileError)
  /-- A history cannot be as large as the settings say. -/
  | badCapacity (e : History.CapacityError)

/-- The exit code of a run. -/
def Ending.exitCode : Ending → Nat
  | done _ _ _ => 0
  | failed _ => 1
  | misused _ => 2
  | badSettings _ => 1
  | badLevel _ => 1
  | badFile _ => 1
  | badCapacity _ => 1

/-- An ending that prints no control sequences. -/
def Ending.plain : Ending → Ending
  | done stdout stderr written => .done (Text.printed stdout) (Text.printed stderr) written
  | failed stderr => .failed (Text.printed stderr)
  | e => e

/-- A line of text. -/
def line (s : String) : String := s ++ "\n"

/-- A run that prints some lines. -/
def printing (lines : List String) : Ending := .done (String.join (lines.map line)) "" []

/-- A run that fails with a line. -/
def failing (s : String) : Ending := .failed (line s)

/-- Text filled up with spaces. -/
def column (width : Nat) (s : String) : String :=
  s ++ String.ofList (List.replicate (width - s.length) ' ')

/-- Puts text out, to a file or as it is. -/
def deliver (files : Files) (text : String) : Option Path → Ending
  | none => .done text "" []
  | some p =>
    match files.checkWritable p with
    | .ok () => .done "" (line ("✓ Wrote " ++ p.text)) [(p, text)]
    | .error e => .badFile e

/-! ## Commands -/

/-- The place of an issue. -/
def placeText (place : List Schema.Step) : String :=
  ".".intercalate (place.map fun
    | .field name => name
    | .index n => Notation.integer n)

/-- An issue in two lines. -/
def issueText (i : Schema.Issue) : String :=
  line (placeText i.place) ++ "  " ++ i.fault.message

/-- Issues under a heading. -/
def issuesText (heading : String) (issues : List Schema.Issue) : String :=
  line heading ++ "\n".intercalate (issues.map issueText)

/-- The words for a document that cannot be opened. -/
def openErrorText (p : Path) : OpenError → String
  | .text e => "Invalid JSON in " ++ p.text ++ ": " ++ e.message
  | .schema issues => issuesText ("Not a canvas document: " ++ p.text) issues
  | .rules e => e.userMessage
  | .capacity e => e.message

/-- The export of a stored design, or the ending of a run that cannot make it. -/
def exportText (s : Settings) (p : Path) (content target : String) : Except Ending String :=
  match Document.ofText content (some s.historySize) 0 with
  | .error (.capacity e) => .error (.badCapacity e)
  | .error e => .error (failing (openErrorText p e))
  | .ok (d, _) =>
    match ((Exporter.ofSettings s).exportTo d.components target).1 with
    | .error e => .error (failing e.userMessage)
    | .ok text => .ok text

/-- The line for a target. -/
def targetLine (t : Target) : String := column 12 (Choice.name t) ++ " ." ++ t.fileExtension

/-- The line for a template. -/
def templateLine (t : Template) : String :=
  column 18 t.id ++ " " ++ column 12 (Choice.name t.category) ++ " " ++ t.description

/-- The templates that a query finds.  No query, or an empty one, finds all. -/
def templatesFor : Option String → List Template
  | some query => if query.isEmpty then Template.library else Template.search query
  | none => Template.library

/-- The stored form of a new design from a template. -/
def newText (s : Settings) (t : Template) : Except History.CapacityError String := do
  let (_, d, _) := (← Document.ofForest [] none (some s.historySize)).applyTemplate t 0
  return d.toText 2 ++ "\n"

/-- Runs what a command line asks for. -/
def perform (s : Settings) (files : Files) : Request → Ending
  | .exportDesign p target output =>
    match files.read p with
    | .error e => .badFile e
    | .ok none => failing ("Document not found: " ++ p.text)
    | .ok (some content) =>
      match exportText s p content target with
      | .error ending => ending
      | .ok text => deliver files text output
  | .targets => printing ((Choice.all : List Target).map targetLine)
  | .templates query =>
    match templatesFor query with
    | [] => printing ["No templates found."]
    | ts => printing (ts.map templateLine)
  | .new name output =>
    match Template.find? name with
    | none => failing ("Unknown template: " ++ name)
    | some t =>
      match newText s t with
      | .error e => .badCapacity e
      | .ok text => deliver files text output

/-! ## Command lines -/

/-- The name and the version of the program. -/
def versionLine : String := "canvas-studio 0.1.0"

/-- The usage of the program. -/
def usageLines : List String :=
  ["Usage: canvas-studio [--version] COMMAND",
    "  export DOCUMENT [--target TARGET] [--output FILE]",
    "  targets",
    "  templates [--search TEXT]",
    "  new TEMPLATE_ID [--output FILE]"]

/-- Runs a command with its own arguments. -/
def runCommand (s : Settings) (files : Files) (c : Subcommand) (args : List String) : Ending :=
  match sort c.switches false args with
  | .error e => .misused e
  | .ok sorted =>
    if sorted.has "--help" then printing usageLines
    else
      match exactly c.words sorted.words >>= fun words => c.request sorted (words.head?.getD "") with
      | .error e => .misused e
      | .ok request => perform s files request

/-- The file of variables. -/
def variablesFile : Path := ⟨"", [".env"]⟩

/-- Runs a command under the settings that variables give. -/
def runWith (environment : List (String × String)) (files : Files) (c : Subcommand)
    (args : List String) : Ending :=
  match Settings.ofEnvironment environment ((files.text? variablesFile).getD "") with
  | .fail issues => .badSettings issues
  | .ok s =>
    match Log.levelOfName s.logLevel with
    | .error e => .badLevel e
    | .ok _ => (runCommand s files c args).plain

/-- Runs a command line in an environment. -/
def run (environment : List (String × String)) (files : Files) (args : List String) : Ending :=
  match sort [version, help] true args with
  | .error e => .misused e
  | .ok sorted =>
    match sorted.options.head? with
    | some ("--version", _) => printing [versionLine]
    | some _ => printing usageLines
    | none =>
      match sorted.words with
      | [] => .misused .commandMissing
      | name :: rest =>
        match (Choice.ofName? name : Option Subcommand) with
        | none => .misused (.noSuchCommand name)
        | some c => runWith environment files c rest

end PageDesign.CommandLine
