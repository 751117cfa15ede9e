/-
# PageDesign.Settings.Environment -- settings from variables

A setting can be given by a variable of the environment, or of a file of variables, whose name
is that of the setting after a fixed beginning.  Upper and lower case do not matter.  The
environment wins over the file, and of several variables for a setting the last one counts.
-/
import PageDesign.Settings.Basic
import PageDesign.Settings.VariableFile

namespace PageDesign

namespace Settings

/-- How the names of variables for settings begin. -/
def variableStart : String := "studio_"

/-- The variable for a setting. -/
def variableName (name : String) : String := variableStart ++ name

/-- What the last variable for a setting says.  A variable without a value says nothing. -/
def lastValue? (known : List VariableFile.Binding) (name : String) : Option String :=
  ((known.filter fun v => Schema.lowerCase v.1 == variableName name).getLast?).bind (·.2)

/-- The settings that variables give. -/
def given (environment : List (String × String)) (file : List VariableFile.Binding) :
    Json.Members :=
  let own := environment.map fun (name, value) => (name, some value)
  names.filterMap fun name =>
    ((lastValue? own name).orElse fun _ => lastValue? file name).map (name, .str ·)

/-- Settings from the environment and the text of a file of variables. -/
def ofEnvironment (environment : List (String × String)) (file : String := "") :
    Schema.Check Settings :=
  read (given environment (VariableFile.assignments environment file))

end Settings

end PageDesign
