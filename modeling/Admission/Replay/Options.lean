import Admission.Document.Numeral

/-!
# Options of a replay

What the command line of a replay says.

* **options** — each has a long name, and most a letter too; it may be given once.  All but the one
  for the output form take a text, which stands behind `=`, right behind the letter, or in the next
  argument;
* **reading** — `Command.ofArgs?` reads the arguments one after the other, and refuses whatever is
  unknown, repeated, out of range or missing.
-/

namespace Admission

/-- The options of a command line. -/
inductive Flag where
  /-- Where the limits are. -/
  | limits
  /-- Where the settings are. -/
  | settings
  /-- The resource to ask for. -/
  | resource
  /-- The caller. -/
  | key
  /-- How many requests to make. -/
  | requests
  /-- The permits of each request. -/
  | permits
  /-- How long each request may wait. -/
  | timeout
  /-- Decisions as documents. -/
  | json
  /-- Explain the options and do nothing else. -/
  | help
  /-- Name the version and do nothing else. -/
  | version
  deriving DecidableEq, Repr

/-- What to replay. -/
structure Options where
  /-- The file of the limits. -/
  limits : Option String
  /-- The file of the settings. -/
  settings : Option String
  /-- The resource to ask for. -/
  resource : String
  /-- The caller. -/
  key : String
  /-- How many requests to make. -/
  requests : UInt32
  /-- The permits of each request. -/
  permits : UInt64
  /-- How long each request may wait, in thousandths of a second. -/
  timeoutMillis : Option UInt64
  /-- Show decisions as documents. -/
  json : Bool
  deriving DecidableEq, Repr

/-- What a command line asks for. -/
inductive Command where
  /-- A replay. -/
  | replay (options : Options)
  /-- An explanation of the options. -/
  | help
  /-- The version. -/
  | version
  deriving DecidableEq, Repr

namespace Flag

/-- All options. -/
def all : List Flag :=
  [limits, settings, resource, key, requests, permits, timeout, json, help, version]

/-- The long name. -/
def name : Flag → String
  | limits => "limits"
  | settings => "config"
  | resource => "resource"
  | key => "key"
  | requests => "requests"
  | permits => "permits"
  | timeout => "timeout-ms"
  | json => "json"
  | help => "help"
  | version => "version"

/-- The letter, where there is one. -/
def letter? : Flag → Option Char
  | limits => some 'l'
  | settings => some 'c'
  | resource => some 'r'
  | key => some 'k'
  | requests => some 'n'
  | permits => some 'p'
  | timeout => none
  | json => none
  | help => some 'h'
  | version => some 'V'

/-- The option of a long name. -/
def ofName? (name : String) : Option Flag := all.find? (·.name == name)

/-- The option of a letter. -/
def ofLetter? (letter : Char) : Option Flag := all.find? (·.letter? == some letter)

/-- Whether the option takes a text. -/
def takesText : Flag → Bool
  | json => false
  | help => false
  | version => false
  | _ => true

/-- Whether an argument looks like an option, so that it is nobody's text. -/
def looksLike (arg : String) : Bool :=
  match arg.toList with
  | ['-'] => false
  | '-' :: _ => true
  | _ => false

/-- The text behind a letter, less the `=` in between; none when nothing follows the letter. -/
def attached? : List Char → Option String
  | [] => none
  | '=' :: cs => some (String.ofList cs)
  | cs => some (String.ofList cs)

/-- The text behind a long name; none when nothing follows the name. -/
def assigned? : List Char → Option String
  | [] => none
  | _ :: cs => some (String.ofList cs)

/-- The option of one argument, with the text that the argument itself gives it. -/
def ofArg? (arg : String) : Option (Flag × Option String) :=
  match arg.toList with
  | '-' :: '-' :: cs => do
    let flag ← ofName? (String.ofList (cs.takeWhile (· != '=')))
    let text := assigned? (cs.dropWhile (· != '='))
    if flag.takesText || text.isNone then pure (flag, text) else none
  | '-' :: letter :: cs => do
    let flag ← ofLetter? letter
    pure (flag, if flag.takesText then attached? cs else none)
  | _ => none

end Flag

/-- What has been read so far: the options in the order in which they were given. -/
abbrev Given := List (Flag × String)

namespace Given

/-- The text of an option. -/
def text? (given : Given) (flag : Flag) : Option String := given.lookup flag

/-- A number of permits or of thousandths of a second. -/
def word64? (s : String) : Option UInt64 :=
  ((Numeral.unsigned? s.toList).filter (· < UInt64.size)).map UInt64.ofNat

/-- A number of requests. -/
def word32? (s : String) : Option UInt32 :=
  ((Numeral.signed? s.toList).filter fun n => Numeral.isUnsigned 32 n).map fun n =>
    UInt32.ofNat n.toNat

/-- Whether a text makes sense for an option: files need a name, and numbers have to be in range. -/
def suits (flag : Flag) (text : String) : Bool :=
  match flag with
  | .limits => text != ""
  | .settings => text != ""
  | .requests => (word32? text).isSome
  | .permits => (word64? text).isSome
  | .timeout => (word64? text).isSome
  | _ => true

/-- One more option, unless it has been given before or its text makes no sense. -/
def add? (given : Given) (flag : Flag) (text : String) : Option Given :=
  if (given.text? flag).isSome || !suits flag text then none else some (given ++ [(flag, text)])

/-- What all options together ask for; the resource has to be among them. -/
def options? (given : Given) : Option Options := do
  let resource ← given.text? .resource
  pure
    { limits := given.text? .limits
      settings := given.text? .settings
      resource
      key := (given.text? .key).getD "anonymous"
      requests := ((given.text? .requests).bind word32?).getD 10
      permits := ((given.text? .permits).bind word64?).getD 1
      timeoutMillis := (given.text? .timeout).bind word64?
      json := (given.text? .json).isSome }

end Given

namespace Command

/-- Read the remaining arguments.  Behind `--` there must be none. -/
def read? (given : Given) : List String → Option Command
  | [] => given.options?.map replay
  | "--" :: rest => if rest.isEmpty then given.options?.map replay else none
  | arg :: rest =>
    match Flag.ofArg? arg with
    | none => none
    | some (.help, _) => some help
    | some (.version, _) => some version
    | some (flag, some text) => (given.add? flag text).bind (read? · rest)
    | some (flag, none) =>
      if flag.takesText then
        match rest with
        | [] => none
        | text :: rest =>
          if Flag.looksLike text then none else (given.add? flag text).bind (read? · rest)
      else (given.add? flag "").bind (read? · rest)

/-- What the arguments of a command line ask for. -/
def ofArgs? (args : List String) : Option Command := read? [] args

end Command

end Admission
