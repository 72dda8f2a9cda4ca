import Admission.Replay.Options

/-!
# Help

What the program says about itself when it is asked for help or for its version.

* **options** — each option has a line: how it is written, and what it is for.  The second column
  starts behind the longest option;
* **the program** — it is called by the name under which it was started.
-/

namespace Admission

namespace Flag

/-- What the text of an option is called. -/
def placeholder (f : Flag) : String :=
  "<" ++ String.ofList (f.name.toUpper.toList.map fun c => if c == '-' then '_' else c) ++ ">"

/-- How an option is written. -/
def written (f : Flag) : String :=
  let letter := match f.letter? with
    | some c => String.ofList ['-', c, ',', ' ']
    | none => "    "
  letter ++ "--" ++ f.name ++ if f.takesText then " " ++ f.placeholder else ""

/-- What an option is for, and what holds without it. -/
def purpose : Flag → String
  | limits => "Limits file; defaults to \x60limits_path\x60 from the engine configuration"
  | settings => "Engine configuration file"
  | resource => "Dotted resource path to request, e.g. \x60users.get\x60"
  | key => "Caller key the quota is tracked against [default: anonymous]"
  | requests => "Number of requests to replay [default: 10]"
  | permits => "Permits per request [default: 1]"
  | timeout => "Maximum wait per request in milliseconds; overrides the engine configuration"
  | json => "Print decisions and logs as JSON"
  | help => "Print help"
  | version => "Print version"

/-- The width of the column of the options. -/
def widest : Nat := (all.map fun f => f.written.length).foldl max 0

/-- The line of an option. -/
def line (f : Flag) : String :=
  let gap := widest - f.written.length + 2
  "  " ++ f.written ++ String.ofList (List.replicate gap ' ') ++ f.purpose

end Flag

namespace Command

/-- What the program is for. -/
def aim : String := "Hierarchical token-bucket rate limiting and admission control"

/-- The explanation of all options, line by line. -/
def helpLines (program : String) : List String :=
  [aim, "", "Usage: " ++ program ++ " [OPTIONS] --resource <RESOURCE>", "", "Options:"] ++
    Flag.all.map Flag.line

/-- The name and the version. -/
def versionLines (program : String) : List String := [program ++ " 0.1.0"]

end Command

end Admission
