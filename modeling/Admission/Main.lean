import Admission.Document.Json
import Admission.Replay.Session

/-!
# The program

Carries out a command line: reads the files and the environment, makes the requests one after the
other, waits for the permits that were granted, and prints each decision with the time that it took.
-/

namespace Admission

namespace Program

/-- The name of the program. -/
def name : String := "admission"

/-- The contents of a file, if it can be read. -/
def contents (path : String) : IO (Option String) := do
  try
    return some (← IO.FS.readFile path)
  catch _ => return none

/-- The variables that set parts of the settings. -/
def environment : IO (List (String × String)) := do
  let found ← Settings.partNames.mapM fun part => do
    let name := Replay.mark name ++ part.toUpper
    return (← IO.getEnv name).map fun value => (name, value)
  return found.filterMap id

/-- The session that options ask for. -/
def session (o : Options) : IO (Except ReplayFault Session) := do
  let file ← o.settings.mapM contents
  match Settings.ofLayers file (Replay.mark name) (← environment) with
  | .error _ => return .error .unreadableSettings
  | .ok settings =>
    match o.limitsPath? settings with
    | .error fault => return .error fault
    | .ok path => return Session.new o settings (← contents path)

/-- A decision with the time that it took. -/
def shown (json : Bool) (d : Decision) (nanos : Nat) : String :=
  if json then
    Json.write (.record (d.parts ++ [("elapsed_ms", .real (nanos.toFloat / 1000000.0))]))
  else
    let micros := (nanos + 500) / 1000
    let thousandths := toString (1000 + micros % 1000)
    d.text ++ " (" ++ toString (micros / 1000) ++ "." ++ thousandths.drop 1 ++ " ms)"

/-- Make so many requests from a given number on.  The clock of the session shows the time since
`start`, and each wait is waited for. -/
def run (s : Session) (json : Bool) (start : Nat) :
    (number count : Nat) → Session.State → IO (Option Fault)
  | _, 0, _ => return none
  | number, count + 1, w => do
    let before ← IO.monoNanosNow
    let clock : Clock := { w.clock with now := Micros.ofNat ((before - start) / 1000) }
    let (answer, after) := s.decide number { w with clock }
    let waited := after.clock.slept.toNat - w.clock.slept.toNat
    IO.sleep (UInt32.ofNatClamp ((waited + 999) / 1000))
    match answer with
    | .error fault => return some fault
    | .ok decision =>
      IO.println (shown json decision ((← IO.monoNanosNow) - before))
      run s json start (number + 1) count after

/-- Print what ended the program too early. -/
def complain (fault : ReplayFault) : IO UInt32 := do
  IO.eprintln ("Error: " ++ fault.message)
  return 1

/-- Carry out a command line. -/
def carryOut (args : List String) : IO UInt32 := do
  match Command.ofArgs? args with
  | none =>
    (Command.helpLines name).forM fun line => IO.eprintln line
    return 2
  | some .help =>
    (Command.helpLines name).forM fun line => IO.println line
    return 0
  | some .version =>
    (Command.versionLines name).forM fun line => IO.println line
    return 0
  | some (.replay o) =>
    match ← session o with
    | .error fault => complain fault
    | .ok s =>
      match ← run s o.json (← IO.monoNanosNow) 1 o.requests.toNat Session.start with
      | some fault => complain (.failed fault)
      | none => return 0

end Program

end Admission

/-- The command line. -/
def main (args : List String) : IO UInt32 := Admission.Program.carryOut args
