import Admission.Document.Yaml.Fit
import Admission.Meter.Catalog
import Admission.Setup.AlgorithmChoice

/-!
# Settings

What holds for all resources: the algorithm of rates that name none, whether to stop after the first
match, how long requests may wait, and where the limits are.

`Settings.ofDocument?` reads them from a document and `Settings.ofFile` from a file.  What is left
out has the value it has in `Settings.standard`.
-/

namespace Admission

/-- What holds for all resources. -/
structure Settings where
  /-- The algorithm of rates that name none. -/
  algorithm : Algorithm
  /-- Stop after the first leaf at which anything was granted. -/
  firstMatchOnly : Bool
  /-- How long a request may wait, in thousandths of a second. -/
  timeoutMillis : UInt64
  /-- Where the limits are. -/
  limitsPath : Option String
  deriving BEq, Repr

namespace Settings

/-- The settings of a document that says nothing. -/
def standard : Settings := ⟨.standard, false, 0, none⟩

/-- The names of the parts. -/
def partNames : List String :=
  ["default_algorithm", "first_match_only", "default_timeout_ms", "limits_path"]

/-- A record of the parts. -/
def shape : Shape :=
  .record
    [("default_algorithm", Algorithm.shape), ("first_match_only", .truth),
      ("default_timeout_ms", .natural (UInt64.size - 1)), ("limits_path", .optional .text)]

/-- The settings that a document describes. -/
def ofDocument? (d : Document) : Option Settings := do
  let parts ← d.parts? partNames
  let algorithm ← Document.defaulted? parts "default_algorithm" standard.algorithm
    Algorithm.ofDocument?
  let firstMatchOnly ← Document.defaulted? parts "first_match_only" standard.firstMatchOnly
    Document.asTruth?
  let timeoutMillis ← Document.defaulted? parts "default_timeout_ms" standard.timeoutMillis
    Document.asWord64?
  let limitsPath ← Document.defaulted? parts "limits_path" standard.limitsPath
    (Document.asOptional? Document.asText?)
  pure ⟨algorithm, firstMatchOnly, timeoutMillis, limitsPath⟩

/-- The settings that a text describes. -/
def ofYaml (s : String) : Except Fault Settings :=
  match (Yaml.read? shape s).bind ofDocument? with
  | some settings => .ok settings
  | none => .error (.setup .unreadableSettings)

/-- The settings that the contents of a file describe, if there is such a file. -/
def ofFile : Option String → Except Fault Settings
  | some contents => ofYaml contents
  | none => .error .missingFile

/-- The settings as a document. -/
def toDocument (s : Settings) : Document :=
  .record
    [("default_algorithm", s.algorithm.toDocument), ("first_match_only", .truth s.firstMatchOnly),
      ("default_timeout_ms", .ofWord64 s.timeoutMillis),
      ("limits_path", .ofOptional .text s.limitsPath)]

/-- How long a request may wait. -/
def timeout (s : Settings) : Duration := .ofMillis s.timeoutMillis.toNat

/-- The catalog with the algorithm of the settings for rates that name none. -/
def catalog {κ : Type} (s : Settings) : Except Fault (Catalog κ) := Catalog.new s.algorithm

end Settings

end Admission
