import Admission.Limiter.Evaluator
import Admission.Replay.Help
import Admission.Setup.Layers
import Admission.Setup.Limits

/-!
# Replays

A replay makes the same request several times over, one after the other, and shows each decision.

* **preparing** — the settings come first, then the limits, which the command line or the settings
  have to name.  `Session.new` joins them;
* **deciding** — `Session.decide` makes one request, `Session.run` all of them.  A fault ends the
  replay; the decisions before it stand;
* **all at once** — `Replay.report` goes from the arguments to the decisions, with the files as a
  function.
-/

namespace Admission

/-- Why a replay ends before its last request. -/
inductive ReplayFault where
  /-- The settings cannot be read. -/
  | unreadableSettings
  /-- Neither the command line nor the settings name a file of limits. -/
  | noLimits
  /-- Something went wrong with the limits or in a decision. -/
  | failed (cause : Fault)
  deriving DecidableEq, Repr

/-- The text of what ended a replay. -/
def ReplayFault.message : ReplayFault → String
  | unreadableSettings => "loading engine configuration"
  | noLimits => "no limits file given; pass --limits or set limits_path"
  | failed cause => cause.message

/-- The answer to one of the requests. -/
structure Decision where
  /-- The number of the request, from one on. -/
  number : Nat
  /-- The resource. -/
  resource : String
  /-- The caller. -/
  key : String
  /-- The permits that were asked for. -/
  permits : UInt64
  /-- Whether they were granted. -/
  allowed : Bool
  deriving DecidableEq, Repr

namespace Decision

/-- A number with blanks in front, four characters wide. -/
def column (n : Nat) : String :=
  let digits := toString n
  String.ofList (List.replicate (4 - digits.length) ' ') ++ digits

/-- The decision on a line. -/
def text (d : Decision) : String :=
  "request " ++ column d.number ++ ": " ++ if d.allowed then "allowed" else "rejected"

/-- The parts of the decision. -/
def parts (d : Decision) : List (String × Document) :=
  [("request", .whole d.number), ("resource", .text d.resource), ("key", .text d.key),
    ("permits", .ofWord64 d.permits), ("allowed", .truth d.allowed)]

end Decision

/-- A replay that is ready to start. -/
structure Session where
  /-- Decides the requests. -/
  evaluator : Evaluator NodeLimit Request String Empty
  /-- The request. -/
  request : Request
  /-- The permits of each request. -/
  permits : UInt64
  /-- How long each request may wait. -/
  timeout : Duration

namespace Options

/-- The file of the limits: the one that the command line names, or else that of the settings. -/
def limitsPath? (o : Options) (settings : Settings) : Except ReplayFault String :=
  match o.limits.or settings.limitsPath with
  | some path => .ok path
  | none => .error .noLimits

/-- How long each request may wait. -/
def timeout (o : Options) (settings : Settings) : Duration :=
  match o.timeoutMillis with
  | some millis => .ofMillis millis.toNat
  | none => settings.timeout

end Options

namespace Session

/-- What a session reads and changes. -/
abbrev State := World (MemoryStore String Empty)

/-- Nothing stored, and a clock that nobody has moved. -/
def start : State := ⟨.empty, .unmoved⟩

/-- The session for the contents of the file of the limits, if there is such a file. -/
def new (o : Options) (settings : Settings) (limits : Option String) :
    Except ReplayFault Session := do
  let tree ← ((Limits.ofFile limits).bind fun l => l.buildTree 0).mapError ReplayFault.failed
  let catalog ← settings.catalog.mapError ReplayFault.failed
  pure
    { evaluator :=
        { Evaluator.ofTree tree catalog with firstMatchOnly := settings.firstMatchOnly }
      request := ⟨o.resource, o.key⟩
      permits := o.permits
      timeout := o.timeout settings }

/-- Make the request of a given number. -/
def decide (s : Session) (number : Nat) (w : State) : Except Fault Decision × State :=
  let outcome := s.evaluator.decide w s.request s.permits s.timeout
  (outcome.answer.map fun allowed =>
    ⟨number, s.request.resource, s.request.key, s.permits, allowed⟩, outcome.world)

/-- Make so many requests from a given number on: the decisions, and what ended them too early. -/
def run (s : Session) : (number count : Nat) → State → List Decision × Option Fault
  | _, 0, _ => ([], none)
  | number, count + 1, w =>
    match s.decide number w with
    | (.error fault, _) => ([], some fault)
    | (.ok decision, w) =>
      let (decisions, fault) := s.run (number + 1) count w
      (decision :: decisions, fault)

end Session

namespace Replay

/-- How a command line is carried out. -/
inductive Report where
  /-- The arguments make no sense. -/
  | refused
  /-- Nothing was asked for but information, which has these lines. -/
  | informed (lines : List String)
  /-- The decisions of a replay, as documents or not, and what ended it too early. -/
  | replayed (json : Bool) (decisions : List Decision) (fault : Option ReplayFault)
  deriving DecidableEq, Repr

/-- The status with which a program ends. -/
def Report.status : Report → UInt32
  | refused => 2
  | informed _ => 0
  | replayed _ _ none => 0
  | replayed _ _ (some _) => 1

/-- The session that options ask for. -/
def session (o : Options) (files : String → Option String) (mark : String)
    (environment : List (String × String)) : Except ReplayFault Session := do
  let settings ← (Settings.ofLayers (o.settings.map files) mark environment).mapError
    fun _ => ReplayFault.unreadableSettings
  let path ← o.limitsPath? settings
  Session.new o settings (files path)

/-- What the names of the variables of a program start with. -/
def mark (program : String) : String := program.toUpper ++ "_"

/-- Carry out a command line of a program of some name; `files` are the contents of files. -/
def report (program : String) (args : List String) (files : String → Option String)
    (environment : List (String × String)) : Report :=
  match Command.ofArgs? args with
  | none => .refused
  | some .help => .informed (Command.helpLines program)
  | some .version => .informed (Command.versionLines program)
  | some (.replay o) =>
    match session o files (mark program) environment with
    | .error fault => .replayed o.json [] (some fault)
    | .ok s =>
      let (decisions, fault) := s.run 1 o.requests.toNat Session.start
      .replayed o.json decisions (fault.map ReplayFault.failed)

end Replay

end Admission
