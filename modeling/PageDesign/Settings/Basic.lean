/-
# PageDesign.Settings.Basic -- the settings of the studio

Every setting has a default, so that an object of settings may leave out any of them.  Names
that are not known are ignored.
-/
import PageDesign.Schema.Scalar

namespace PageDesign

/-- The settings of the studio. -/
structure Settings where
  logLevel : String := "INFO"
  jsonLogs : Bool := false
  /-- How many snapshots a history holds. -/
  historySize : Int := 50
  /-- The name of the component library that a view imports. -/
  preset : String := "plain"
  /-- Spaces for a level of indentation, where the kind of markup does not decide. -/
  indentWidth : Option Int := none
  enableCache : Bool := true
  /-- How many exports a cache holds. -/
  cacheSize : Int := 32
  deriving DecidableEq, Repr, Inhabited

namespace Settings

/-- The names of the settings. -/
def names : List String :=
  ["log_level", "json_logs", "max_history_size", "export_preset", "indent_width",
    "enable_cache", "cache_size"]

/-- The members that give settings, under the names of the settings.  Upper and lower case do
not matter, and of several members for a setting the first one counts. -/
def known (ms : Json.Members) : Json.Members :=
  names.filterMap fun name =>
    (ms.find? fun m => Schema.lowerCase m.1 == name).map fun m => (name, m.2)

open Schema in
/-- Settings from the fields of an object.  Sizes have to be positive. -/
def read (fields : Json.Members) : Check Settings :=
  let ms := known fields
  let d : Settings := {}
  Settings.mk
    <$> field ms "log_level" d.logLevel text
    <*> field ms "json_logs" d.jsonLogs bool
    <*> field ms "max_history_size" d.historySize (intAbove 0)
    <*> field ms "export_preset" d.preset text
    <*> field ms "indent_width" d.indentWidth (optional (intAbove 0))
    <*> field ms "enable_cache" d.enableCache bool
    <*> field ms "cache_size" d.cacheSize (intAbove 0)

end Settings

end PageDesign
