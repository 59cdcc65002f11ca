import PostingIndex.Command
import PostingIndex.CommandLine.Arguments

/-!
# The command line

## Contents

Requests, which are command lines that follow the usage, and what serving a
request prints and answers: its exit code tells the kind of failure.
-/

namespace PostingIndex

/-!
## Requests
-/

/-- What a command line asks for.  Names and changes are not looked at yet. -/
inductive Request where
  | create (file : String) (types : Option String) (capacity : Option Nat)
      (configFile : Option String)
  | info (file : String)
  | update (file typeName : String) (id : EntityId) (changes : String)
  | ingest (file changesFile : String)
  | games (file typeName : String) (id : EntityId) (expand : Bool)
  | blocks (file : String)
  | statistics (file : String)
  | verify (file : String)
  | exportLists (file : String) (indented : Bool)

structure CommandLine where
  json : Bool
  verbose : Bool
  request : Request

namespace CommandLine

def usage : String :=
  Report.lines [
    "Usage: [--format text|json] [--verbose] COMMAND",
    "",
    "Commands:",
    "  create FILE [--types NAMES] [--capacity N] [--config FILE]",
    "  info FILE",
    "  update FILE TYPE ENTITY_ID CHANGES",
    "  ingest FILE JSON_FILE",
    "  games FILE TYPE ENTITY_ID [--expand]",
    "  blocks FILE",
    "  stats FILE",
    "  verify FILE",
    "  export FILE [--pretty]"]

def path? (text : String) : Option String :=
  if text.isEmpty then none else some text

def pathOption? (arguments : Arguments) (name : String) : Option (Option String) :=
  match arguments.option? name with
  | none => some none
  | some text => (path? text).map some

def numberOption? (arguments : Arguments) (name : String) : Option (Option Nat) :=
  match arguments.option? name with
  | none => some none
  | some text => (Decimal.below? UInt64.size text.toList).map some

def onePath? (shape : ArgumentShape) (arguments : List String) :
    Option (Arguments × String) := do
  let sorted ← Arguments.sort? shape {} arguments
  match sorted.operands with
  | [file] => return (sorted, ← path? file)
  | _ => none

def create? (arguments : List String) : Option Request := do
  let shape : ArgumentShape := { options := ["types", "capacity", "config"] }
  let (sorted, file) ← onePath? shape arguments
  let capacity ← numberOption? sorted "capacity"
  let configFile ← pathOption? sorted "config"
  return .create file (sorted.option? "types") capacity configFile

def update? (arguments : List String) : Option Request := do
  let sorted ← Arguments.sort? {} {} arguments
  match sorted.operands with
  | [file, typeName, id, changes] =>
      return .update (← path? file) typeName (← Decimal.signedUInt32? id.toList) changes
  | _ => none

def ingest? (arguments : List String) : Option Request := do
  let sorted ← Arguments.sort? {} {} arguments
  match sorted.operands with
  | [file, changesFile] => return .ingest (← path? file) (← path? changesFile)
  | _ => none

def games? (arguments : List String) : Option Request := do
  let sorted ← Arguments.sort? { flags := ["expand"] } {} arguments
  match sorted.operands with
  | [file, typeName, id] =>
      return .games (← path? file) typeName (← Decimal.signedUInt32? id.toList)
        (sorted.hasFlag "expand")
  | _ => none

def export? (arguments : List String) : Option Request := do
  let (sorted, file) ← onePath? { flags := ["pretty"] } arguments
  return .exportLists file (sorted.hasFlag "pretty")

def fileRequest? (request : String -> Request) (arguments : List String) :
    Option Request := do
  let (_, file) ← onePath? {} arguments
  return request file

def request? (name : String) (arguments : List String) : Option Request :=
  match name with
  | "create" => create? arguments
  | "info" => fileRequest? .info arguments
  | "update" => update? arguments
  | "ingest" => ingest? arguments
  | "games" => games? arguments
  | "blocks" => fileRequest? .blocks arguments
  | "stats" => fileRequest? .statistics arguments
  | "verify" => fileRequest? .verify arguments
  | "export" => export? arguments
  | _ => none

def ofArguments? (arguments : List String) : Option CommandLine := do
  let shape : ArgumentShape :=
    { flags := ["verbose"], options := ["format"], stopsAtOperand := true }
  let sorted ← Arguments.sort? shape {} arguments
  match sorted.operands with
  | [name] =>
      return {
        json := sorted.option? "format" = some "json"
        verbose := sorted.hasFlag "verbose"
        request := ← request? name sorted.rest }
  | _ => none

/-!
## Serving a request
-/

/-- Why a request failed. -/
inductive Failure where
  | typeName (text : String)
  | changes (text : String)
  | error (error : IndexError)

namespace Failure

def message : Failure -> String
  | typeName text => s!"Invalid entity type: {text}\n"
  | changes text => s!"Invalid changes (expected game:count,...): {text}\n"
  | error cause => s!"Error: {cause.message}\n"

def codeOf : IndexError -> UInt8
  | .file _ => 1
  | .invalidMagic => 2
  | .unsupportedVersion _ => 2
  | .truncated => 2
  | .corruptData _ => 2
  | .checksumMismatch _ => 2
  | .compression => 2
  | .corruptChain _ _ => 2
  | .invalidConfig _ => 3
  | .configSyntax => 3
  | .changesSyntax => 3
  | .unknownType _ => 3
  | .entityOutOfRange _ _ => 4
  | .aborted _ => 101

def code : Failure -> UInt8
  | typeName _ => 3
  | changes _ => 3
  | error cause => codeOf cause

end Failure

def usageCode : UInt8 :=
  2

/-- What serving a request came to. -/
structure Served where
  directory : Directory
  output : String := ""
  notices : List Notice := []
  failure : Option Failure := none

namespace Served

def code (served : Served) : UInt8 :=
  match served.failure with
  | none => 0
  | some failure => failure.code

def complaint (served : Served) : String :=
  match served.failure with
  | none => ""
  | some failure => failure.message

def ofOutcome (outcome : Outcome) : Served :=
  { directory := outcome.directory
    output := outcome.output
    notices := outcome.notices
    failure := outcome.stop.map Failure.error }

end Served

def readType (name : String) : Except Failure EntityType :=
  match EntityType.ofName? name with
  | some type => .ok type
  | none => .error (.typeName name)

def readTypes (names : String) : Except Failure (List EntityType) :=
  (Text.pieces ',' names.toList).mapM fun piece =>
    readType (String.ofList (Text.trim piece))

def readChanges (text : String) : Except Failure Changes :=
  match Changes.parse? text with
  | some changes => .ok changes
  | none => .error (.changes text)

def lift (result : Except IndexError α) : Except Failure α :=
  result.mapError Failure.error

/--
The configuration of a new file: the document if there is one, then the
catalogues and the capacity that were given.
-/
def newConfig (directory : Directory) (types : Option String) (capacity : Option Nat)
    (configFile : Option String) : Except Failure Config := do
  let base ←
    match configFile with
    | some file => lift (directory.readConfig file)
    | none => pure {}
  let listed ←
    match types with
    | some names => readTypes names
    | none => pure base.types
  let config : Config := { types := listed, capacity := capacity.getD base.capacity }
  lift config.validate
  return config

def command (directory : Directory) (json : Bool) : Request -> Except Failure Command
  | .create file types capacity configFile => do
      return .create file (← newConfig directory types capacity configFile)
  | .info file => return .info file json
  | .update file typeName id changes => do
      let type ← readType typeName
      return .update file { type, id } (← readChanges changes) json
  | .ingest file changesFile => return .ingest file changesFile json
  | .games file typeName id expand => do
      let type ← readType typeName
      return .games file { type, id } expand json
  | .blocks file => return .blocks file json
  | .statistics file => return .statistics file json
  | .verify file => return .verify file json
  | .exportLists file indented => return .exportLists file indented

/-- Serves a command line in a directory; files are written at the time `now`. -/
def serve (line : CommandLine) (directory : Directory) (now : UInt64) : Served :=
  match command directory line.json line.request with
  | .error failure => { directory, failure := some failure }
  | .ok command => Served.ofOutcome (command.run directory now)

def paths (line : CommandLine) : List String :=
  match line.request with
  | .create file _ _ configFile => file :: configFile.toList
  | .info file => [file]
  | .update file _ _ _ => [file]
  | .ingest file changesFile => [file, changesFile]
  | .games file _ _ _ => [file]
  | .blocks file => [file]
  | .statistics file => [file]
  | .verify file => [file]
  | .exportLists file _ => [file]

end CommandLine

end PostingIndex
