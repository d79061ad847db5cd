import Steward.Command.Grammar
import Steward.Document.Loader
import Steward.Log.Record
import Steward.Number.Decimal
import Steward.Number.Power

set_option autoImplicit false

namespace Steward.Command

inductive Format
  | text
  | json
  | yaml
  deriving DecidableEq, Repr, Inhabited

inductive Task
  | run (listKey : String) (watchSeconds : Nat) (noAutoreload : Bool)
  | show_ (kind : String) (format : Format)
  | validate (listKey : String) (verbose : Bool)
  | version (format : Format)
  deriving DecidableEq, Repr, Inhabited

def Task.command : Task → String
  | .run .. => "run"
  | .show_ .. => "show"
  | .validate .. => "validate"
  | .version _ => "version"

structure Arguments where
  config : Option Path
  level : Level
  jsonLogs : Bool
  task : Task
  deriving DecidableEq, Repr, Inhabited

def levelWord : Level → String
  | .error => "error"
  | .warn => "warn"
  | .info => "info"
  | .debug => "debug"
  | .trace => "trace"

def level? (s : String) : Option Level :=
  [Level.trace, .debug, .info, .warn, .error].find? (levelWord · == s)

def format? (s : String) : Option Format :=
  match s with
  | "text" => some .text
  | "json" => some .json
  | "yaml" => some .yaml
  | _ => none

def count? (s : String) : Option Nat :=
  let digits := match s.toList with
    | '+' :: rest => rest
    | all => all
  if digits.isEmpty || !digits.all Char.isDigit then none
  else some (Decimal.ofDigits digits) |>.filter (· < wordLimit)

def refuseUnless (ok : Bool) (fault : UsageFault) : Option UsageFault :=
  if ok then none else some fault

def anyText : OptionAction := .value fun _ => none

def formatAction : OptionAction := .value fun s => refuseUnless (format? s).isSome .invalidValue

def sharedOptions : List OptionRule :=
  [{ name := "config", short := some 'c', standIn := some "BACKBONE_CONFIG"
     action := .value fun s => refuseUnless (s ≠ "") .invalidValue },
    { name := "log-level", short := some 'l', standIn := some "BACKBONE_LOG_LEVEL"
      action := .value fun s => refuseUnless (level? s).isSome .invalidValue },
    { name := "json-logs", action := .switch }]

def helpOption : OptionRule := { name := "help", short := some 'h', action := .ending .help }

def versionOption : OptionRule :=
  { name := "version", short := some 'V', action := .ending .version }

def commands : List String := ["run", "show", "validate", "version"]

def program : Grammar :=
  { options := sharedOptions ++ [helpOption, versionOption], subcommands := commands ++ ["help"] }

def grammarOf (command : String) : Grammar :=
  let own : List OptionRule :=
    match command with
    | "run" =>
      [{ name := "components-key", standIn := some "BACKBONE_COMPONENTS_KEY", action := anyText },
        { name := "watch-interval", standIn := some "BACKBONE_WATCH_INTERVAL"
          action := .value fun s => refuseUnless (count? s).isSome .valueValidation },
        { name := "no-autoreload", action := .switch }]
    | "validate" =>
      [{ name := "components-key", action := anyText },
        { name := "verbose", short := some 'v', action := .switch }]
    | _ => [{ name := "format", short := some 'f', action := formatAction }]
  let operand := if command = "show" then some { name := "kind", action := anyText } else none
  { options := own ++ sharedOptions ++ [helpOption], operand }

def helpFault : List String → UsageFault
  | [] => .help
  | [word] => if program.subcommands.contains word then .help else .invalidSubcommand
  | _ => .invalidSubcommand

def taskOf (command : String) (r : Reader) : Task :=
  let text := fun name fallback => ((r.find? name).map (·.text)).getD fallback
  let format := (format? (text "format" "text")).getD .text
  let listKey := text "components-key" Document.defaultListKey
  match command with
  | "run" =>
    .run listKey ((count? (text "watch-interval" "2")).getD 2) (r.find? "no-autoreload").isSome
  | "show" => .show_ (text "kind" "all") format
  | "validate" => .validate listKey (r.find? "verbose").isSome
  | _ => .version format

def withoutCommand (r : Reader) : UsageFault :=
  if r.given.isEmpty then .missingHelp else .missingSubcommand

def Arguments.read (env : String → Option String) (words : List String) :
    Except UsageFault Arguments := do
  let (outer, command) ← Reader.readWords program {} words
  match command with
  | some ("help", rest) => throw (helpFault rest)
  | some (command, rest) =>
    let grammar := grammarOf command
    let (inner, _) ← Reader.readWords grammar {} rest
    let inner ← inner.conclude grammar env
    let outer ← outer.conclude program env
    let text := merged outer inner
    return {
      config := (text "config").map fun t => ⟨t⟩
      level := ((text "log-level").bind level?).getD .info
      jsonLogs := (text "json-logs").isSome
      task := taskOf command inner }
  | none => throw (withoutCommand (← outer.conclude program env))

namespace Arguments

def isVerbose (a : Arguments) : Bool := a.level = .debug || a.level = .trace

def configDirectory? (s : Surroundings) : Option Path :=
  match (s.env "XDG_CONFIG_HOME").map Path.mk |>.filter Path.isAbsolute with
  | some dir => some dir
  | none => s.home?.map fun home => home.join ⟨".config"⟩

def localName : Path := ⟨"backbone.yaml"⟩

def defaultConfig (s : Surroundings) : Path :=
  if s.stored localName ≠ .missing then localName
  else
    match configDirectory? s with
    | some dir => dir.joinAll ["service-backbone", localName.text]
    | none => localName

def configPath (a : Arguments) (s : Surroundings) : Path := a.config.getD (defaultConfig s)

end Arguments

end Steward.Command
