/-
# PageDesign.Export.Exporter -- exports that are kept

An exporter works under fixed settings.  If the settings want it, exports are kept in
a cache under the target and the stored form of the design.
-/
import PageDesign.Cache
import PageDesign.Export.Target

namespace PageDesign

/-- An exporter with its settings and its cache, if it has one. -/
structure Exporter where
  settings : Settings
  cache : Option (Cache String)

namespace Exporter

/-- A new exporter, whose cache is empty. -/
def ofSettings (s : Settings) : Exporter :=
  ⟨s, if s.enableCache then some (Cache.empty s.cacheSize.toNat) else none⟩

/-- What an export is kept under. -/
def keyFields (target : String) (f : Forest Id) : List String :=
  [target, (Component.recordAll f).dump]

/-- The export of a design under a plan, from the cache or new. -/
def exportWith (s : Exporter) (p : ExportPlan) (target : String) (f : Forest Id) :
    String × Exporter :=
  match s.cache with
  | none => (p.render f, s)
  | some c =>
    let key := keyFields target f
    match c.get key with
    | (some text, c) => (text, { s with cache := some c })
    | (none, c) =>
      let text := p.render f
      (text, { s with cache := some (c.set key text) })

/-- The export of a design to a target.  A refusal leaves the cache alone. -/
def exportTo (s : Exporter) (f : Forest Id) (target : String) :
    Except ExportError String × Exporter :=
  match ExportPlan.ofSettings s.settings target with
  | .error e => (.error e, s)
  | .ok p =>
    let (text, s) := s.exportWith p target f
    (.ok text, s)

/-- Drops all exports that were kept. -/
def clear (s : Exporter) : Exporter := { s with cache := s.cache.map Cache.clear }

/-- What the cache reports, if there is one. -/
def stats? (s : Exporter) : Option CacheStats := s.cache.map Cache.stats

end Exporter

end PageDesign
