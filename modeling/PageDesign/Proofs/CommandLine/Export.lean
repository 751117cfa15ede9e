/-
# PageDesign.Proofs.CommandLine.Export -- exports from the command line

A run that is asked to export a design opens it, makes the export and puts it out, and each of
these can fail.  Whatever the file of the design holds, the run either is done and gives the whole
export, or it fails and gives nothing (`export_whole`).  A file that is written is the export; the
output has the export as it is printed, which is the same text if no control sequence stands in
it.
-/
import PageDesign.CommandLine.Run
import PageDesign.Proofs.Text.Terminal

namespace PageDesign.CommandLine

/-! ## What is asked for -/

/-- The request that the arguments of a command make, if they are understood and do not ask for
help. -/
def Subcommand.requestOf? (c : Subcommand) (args : List String) : Option Request :=
  match sort c.switches false args with
  | .error _ => none
  | .ok sorted =>
    if sorted.has "--help" then none
    else
      (exactly c.words sorted.words >>= fun words =>
        c.request sorted (words.head?.getD "")).toOption

theorem runCommand_of_requestOf? {s : Settings} {files : Files} {c : Subcommand}
    {args : List String} {r : Request} (h : c.requestOf? args = some r) :
    runCommand s files c args = perform s files r := by
  unfold Subcommand.requestOf? at h
  unfold runCommand
  cases hsort : sort c.switches false args with
  | error e =>
      rw [hsort] at h
      cases h
  | ok sorted =>
      rw [hsort] at h
      dsimp only at h ⊢
      by_cases hhelp : sorted.has "--help" = true
      · rw [if_pos hhelp] at h
        cases h
      · rw [if_neg hhelp] at h ⊢
        cases hrequest : exactly c.words sorted.words >>= fun words =>
            c.request sorted (words.head?.getD "") with
        | error e =>
            rw [hrequest] at h
            cases h
        | ok request =>
            rw [hrequest] at h
            cases h
            rfl

/-- Arguments that ask for an export. -/
def exportArguments (document target : String) (output : Option String) : List String :=
  "--target" :: target :: (output.elim [] fun o => ["--output", o]) ++ ["--", document]

theorem pathOf_eq_ok {name s : String} (h : '\x00' ∉ s.toList) :
    Subcommand.pathOf name s = .ok (.ofString s) := by
  rw [Subcommand.pathOf, if_neg (by simpa using h)]

/-- Every target can be asked for, and every path without a null character. -/
theorem requestOf?_exportArguments {document target : String} {output : Option String}
    (hdocument : '\x00' ∉ document.toList) (houtput : ∀ o ∈ output, '\x00' ∉ o.toList) :
    Subcommand.exportDesign.requestOf? (exportArguments document target output) =
      some (.exportDesign (.ofString document) target (output.map .ofString)) := by
  cases output with
  | none =>
      have hrequest : Subcommand.exportDesign.requestOf? (exportArguments document target none) =
          (Subcommand.pathOf "DOCUMENT" document >>= fun p =>
            return .exportDesign p target none).toOption := rfl
      refine hrequest.trans ?_
      rw [pathOf_eq_ok hdocument]
      rfl
  | some o =>
      have hrequest :
          Subcommand.exportDesign.requestOf? (exportArguments document target (some o)) =
            (some <$> Subcommand.pathOf "--output" o >>= fun output =>
              Subcommand.pathOf "DOCUMENT" document >>= fun p =>
                return .exportDesign p target output).toOption := rfl
      refine hrequest.trans ?_
      simp only [pathOf_eq_ok hdocument, pathOf_eq_ok (houtput o rfl)]
      rfl

/-- The settings that a run works under, if they can be used. -/
def settings? (environment : List (String × String)) (files : Files) : Option Settings :=
  match Settings.ofEnvironment environment ((files.text? variablesFile).getD "") with
  | .fail _ => none
  | .ok s => (Log.levelOfName s.logLevel).toOption.map fun _ => s

/-! ## What a run gives -/

namespace Ending

/-- What an ending prints to the output. -/
def stdout : Ending → String
  | done stdout _ _ => stdout
  | _ => ""

/-- The files that an ending writes, with their texts. -/
def written : Ending → List (Path × String)
  | done _ _ written => written
  | _ => []

/-- The run failed: it prints nothing to the output and writes no file. -/
structure GivesNothing (e : Ending) : Prop where
  exitCode : e.exitCode = 1
  stdout : e.stdout = ""
  written : e.written = []

/-- The run is done: it writes a text to a file, or prints it to the output, and nothing else. -/
structure Gives (e : Ending) (text : String) (output : Option Path) : Prop where
  exitCode : e.exitCode = 0
  stdout : e.stdout = if output.isNone then Text.printed text else ""
  written : e.written = output.toList.map (·, text)

theorem GivesNothing.plain {e : Ending} (h : e.GivesNothing) : e.plain.GivesNothing := by
  cases e with
  | done stdout stderr written => exact absurd h.exitCode (by simp [Ending.exitCode])
  | failed stderr => exact ⟨rfl, rfl, rfl⟩
  | _ => exact h

end Ending

theorem givesNothing_failing (s : String) : (failing s).GivesNothing := ⟨rfl, rfl, rfl⟩

/-- A text is put out whole, unless its file cannot be written. -/
theorem gives_deliver {files : Files} {text : String} {output : Option Path}
    (h : ∀ o ∈ output, files.checkWritable o = .ok ()) :
    (deliver files text output).plain.Gives text output := by
  cases output with
  | none => exact ⟨rfl, rfl, rfl⟩
  | some o =>
      rw [deliver, h o rfl]
      exact ⟨rfl, rfl, rfl⟩

theorem givesNothing_deliver {files : Files} {text : String} {output : Option Path}
    (h : ¬ ∀ o ∈ output, files.checkWritable o = .ok ()) :
    (deliver files text output).GivesNothing := by
  cases output with
  | none => exact absurd (by simp) h
  | some o =>
      rw [deliver]
      split
      next hok => exact absurd (by simpa using hok) h
      next e he => exact ⟨rfl, rfl, rfl⟩

/-! ## The export of a text -/

/-- The text of a design is opened, and what a new exporter makes of its components for a target
is the code. -/
def Exports (s : Settings) (text target code : String) : Prop :=
  ∃ d n, Document.ofText text (some s.historySize) 0 = .ok (d, n) ∧
    ((Exporter.ofSettings s).exportTo d.components target).1 = .ok code

theorem exportText_eq_ok_iff {s : Settings} {p : Path} {text target code : String} :
    exportText s p text target = .ok code ↔ Exports s text target code := by
  rw [exportText, Exports]
  cases Document.ofText text (some s.historySize) 0 with
  | error e => cases e <;> simp
  | ok r =>
      obtain ⟨d, n⟩ := r
      cases hcode : ((Exporter.ofSettings s).exportTo d.components target).1 <;> simp [hcode]

theorem givesNothing_of_exportText {s : Settings} {p : Path} {text target : String} {e : Ending}
    (h : exportText s p text target = .error e) : e.GivesNothing := by
  rw [exportText] at h
  split at h
  next =>
    cases h
    exact ⟨rfl, rfl, rfl⟩
  next =>
    cases h
    exact givesNothing_failing _
  next =>
    split at h
    next =>
      cases h
      exact givesNothing_failing _
    next => cases h

/-! ## The command -/

/-- The text of a file as it is read, with its line ends made one. -/
def asRead (content : String) : String := String.ofList (Text.unifyLineEnds content.toList)

section Command

variable {files : Files} {p : Path} {target : String} {output : Option Path} {content : String}

theorem read_of_find (h : files.find p = .file content) :
    files.read p = .ok (some (asRead content)) := by
  rw [Files.read, h]
  rfl

theorem gives_perform {s : Settings} {code : String} (hfile : files.find p = .file content)
    (hexports : Exports s (asRead content) target code)
    (hwritable : ∀ o ∈ output, files.checkWritable o = .ok ()) :
    (perform s files (.exportDesign p target output)).plain.Gives code output := by
  simp only [perform, read_of_find hfile, exportText_eq_ok_iff.mpr hexports]
  exact gives_deliver hwritable

theorem givesNothing_perform {s : Settings} (hfile : files.find p = .file content)
    (h : ¬ ∃ code, Exports s (asRead content) target code ∧
      ∀ o ∈ output, files.checkWritable o = .ok ()) :
    (perform s files (.exportDesign p target output)).GivesNothing := by
  cases hcode : exportText s p (asRead content) target with
  | error e =>
      simp only [perform, read_of_find hfile, hcode]
      exact givesNothing_of_exportText hcode
  | ok code =>
      simp only [perform, read_of_find hfile, hcode]
      exact givesNothing_deliver fun hwritable =>
        h ⟨code, exportText_eq_ok_iff.mp hcode, hwritable⟩

/-! ## Runs -/

variable {environment : List (String × String)} {args : List String}

/-- Without settings that can be used, no command is run, and under settings a run does what its
arguments ask for. -/
theorem run_cases (environment : List (String × String)) (files : Files) {c : Subcommand}
    {r : Request} (hargs : c.requestOf? args = some r) :
    (settings? environment files = none ∧ (runWith environment files c args).GivesNothing) ∨
      ∃ s, settings? environment files = some s ∧
        runWith environment files c args = (perform s files r).plain := by
  -- unfolded without their equations, which are slow to state since they read the settings
  delta settings? runWith
  cases Settings.ofEnvironment environment ((files.text? variablesFile).getD "") with
  | fail issues => exact .inl ⟨rfl, rfl, rfl, rfl⟩
  | ok s =>
      cases hlevel : Log.levelOfName s.logLevel with
      | error e =>
          simp only [hlevel]
          exact .inl ⟨rfl, rfl, rfl, rfl⟩
      | ok level =>
          simp only [hlevel, runCommand_of_requestOf? hargs]
          exact .inr ⟨s, rfl, rfl⟩

theorem run_export (environment : List (String × String)) (files : Files) (args : List String) :
    run environment files ("export" :: args) = runWith environment files .exportDesign args :=
  rfl

section Export

variable (hargs : Subcommand.exportDesign.requestOf? args = some (.exportDesign p target output))
  (hfile : files.find p = .file content)

include hargs hfile

theorem gives_run {s : Settings} {code : String} (hsettings : settings? environment files = some s)
    (hexports : Exports s (asRead content) target code)
    (hwritable : ∀ o ∈ output, files.checkWritable o = .ok ()) :
    (run environment files ("export" :: args)).Gives code output := by
  rw [run_export]
  obtain ⟨hnone, -⟩ | ⟨s', hsome, hrun⟩ := run_cases environment files hargs
  · rw [hnone] at hsettings
    cases hsettings
  · rw [hsome] at hsettings
    cases hsettings
    rw [hrun]
    exact gives_perform hfile hexports hwritable

theorem givesNothing_run (h : ¬ ∃ s code, settings? environment files = some s ∧
      Exports s (asRead content) target code ∧ ∀ o ∈ output, files.checkWritable o = .ok ()) :
    (run environment files ("export" :: args)).GivesNothing := by
  rw [run_export]
  obtain ⟨-, hnothing⟩ | ⟨s, hsettings, hrun⟩ := run_cases environment files hargs
  · exact hnothing
  · rw [hrun]
    refine (givesNothing_perform hfile ?_).plain
    rintro ⟨code, hexports, hwritable⟩
    exact h ⟨s, code, hsettings, hexports, hwritable⟩

end Export

/-- A run that is asked for the export of a file that is there, in any environment, gives the whole
export or nothing.  It is done exactly if the settings can be used, the text of the file is opened,
its components have an export to the target, and the file to write can be written; a text that is
refused, for whatever reason, ends it with exit code 1.  An export that goes to the output is
printed, so that it arrives as it is exactly if no control sequence stands in it. -/
theorem export_whole
    (hargs : Subcommand.exportDesign.requestOf? args = some (.exportDesign p target output))
    (hfile : files.find p = .file content) :
    let ending := run environment files ("export" :: args)
    let text := asRead content
    ((∃ s code, settings? environment files = some s ∧ Exports s text target code ∧
          ending.Gives code output) ∨ ending.GivesNothing) ∧
      (ending.exitCode = 0 ↔ ∃ s code, settings? environment files = some s ∧
        Exports s text target code ∧ ∀ o ∈ output, files.checkWritable o = .ok ()) ∧
      (∀ s e, settings? environment files = some s →
        Document.ofText text (some s.historySize) 0 = .error e → ending.GivesNothing) ∧
      ∀ code, ending.Gives code none → (ending.stdout = code ↔ ¬ Text.HasSequence code.toList) := by
  intro ending text
  have hprinted (code : String) (h : ending.Gives code none) :
      ending.stdout = code ↔ ¬ Text.HasSequence code.toList := by
    have hstdout : ending.stdout = Text.printed code := h.stdout
    rw [hstdout, Text.printed_eq_self_iff]
  by_cases hdone : ∃ s code, settings? environment files = some s ∧ Exports s text target code ∧
      ∀ o ∈ output, files.checkWritable o = .ok ()
  · have hall := hdone
    obtain ⟨s, code, hsettings, hexports, hwritable⟩ := hall
    have hgives : ending.Gives code output := gives_run hargs hfile hsettings hexports hwritable
    refine ⟨.inl ⟨s, code, hsettings, hexports, hgives⟩, iff_of_true hgives.exitCode hdone, ?_,
      hprinted⟩
    -- the text of the file was opened under the settings, so it was not refused
    intro s' e hsettings' hrefused
    obtain ⟨d, n, hopened, -⟩ := hexports
    rw [hsettings] at hsettings'
    cases hsettings'
    rw [hopened] at hrefused
    cases hrefused
  · have hnothing : ending.GivesNothing := givesNothing_run hargs hfile hdone
    refine ⟨.inr hnothing, iff_of_false ?_ hdone, fun _ _ _ _ => hnothing, hprinted⟩
    rw [hnothing.exitCode]
    exact Nat.one_ne_zero

end Command

/-- A design with a word in color. -/
def coloredText : String :=
  "\x7b\"components\":[\x7b\"id\":\"a\",\"kind\":\"text\",\"content\":\"\\u001b[31mred\"\x7d]\x7d"

/-- The files among which the design is. -/
def coloredFiles : Files := { texts := [("d.json", coloredText)] }

/-- The design is exported to a file whose directory is missing, and the file is the export. -/
theorem export_whole_sample :
    let args := exportArguments "d.json" "react" (some "out/App.tsx")
    let ending := run [] coloredFiles ("export" :: args)
    Subcommand.exportDesign.requestOf? args =
        some (.exportDesign (.ofString "d.json") "react" (some (.ofString "out/App.tsx"))) ∧
      coloredFiles.find (.ofString "d.json") = .file coloredText ∧
      ending.exitCode = 0 ∧
      ∃ s code, settings? [] coloredFiles = some s ∧
        Exports s (asRead coloredText) "react" code ∧
        ending.written = [(.ofString "out/App.tsx", code)] := by
  intro args ending
  have hargs : Subcommand.exportDesign.requestOf? args =
      some (.exportDesign (.ofString "d.json") "react" (some (.ofString "out/App.tsx"))) :=
    requestOf?_exportArguments (by decide) (by decide)
  have hfile : coloredFiles.find (.ofString "d.json") = .file coloredText := by decide +kernel
  have hdone : ending.exitCode = 0 := by decide +kernel
  obtain ⟨⟨s, code, hsettings, hexports, hgives⟩ | hnothing, -⟩ :=
    export_whole hargs hfile
  · exact ⟨hargs, hfile, hdone, s, code, hsettings, hexports, hgives.written⟩
  · exact absurd (hdone.symm.trans hnothing.exitCode) Nat.zero_ne_one

/-- The page that a word is exported to. -/
def wordPage (word : String) : String :=
  "<!DOCTYPE html>\n<html>\n<head>\n    <meta charset=\"UTF-8\">\n" ++
    "    <title>Generated Layout</title>\n</head>\n<body>\n    <p>" ++ word ++
    "</p>\n</body>\n</html>\n"

/-- The same design loses its color where the export goes to the output. -/
theorem export_colorless :
    let ending := run [] coloredFiles ["export", "d.json", "--target", "html"]
    settings? [] coloredFiles = some {} ∧
      Exports {} (asRead coloredText) "html" (wordPage "\x1b[31mred") ∧
      ending.exitCode = 0 ∧ ending.stdout = wordPage "red" ∧
      wordPage "red" ≠ wordPage "\x1b[31mred" := by
  intro ending
  have hpage : (exportText {} (.ofString "d.json") (asRead coloredText) "html").toOption =
      some (wordPage "\x1b[31mred") := by decide +kernel
  have hexports : Exports {} (asRead coloredText) "html" (wordPage "\x1b[31mred") := by
    refine exportText_eq_ok_iff (p := .ofString "d.json").mp ?_
    cases hcode : exportText {} (.ofString "d.json") (asRead coloredText) "html" with
    | error e =>
        rw [hcode] at hpage
        cases hpage
    | ok code =>
        rw [hcode] at hpage
        exact congrArg Except.ok (Option.some.inj hpage)
  exact ⟨by decide +kernel, hexports, by decide +kernel, by decide +kernel, by decide +kernel⟩

end PageDesign.CommandLine
