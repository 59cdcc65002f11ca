import PostingIndex.Config
import PostingIndex.Toml.Document

/-!
# Configuration documents

## Contents

Reading a configuration from a TOML document.  Both fields may be missing, and
other entries are ignored.
-/

namespace PostingIndex

namespace EntityType

def isEmptyValue : Toml.Value -> Bool
  | .array items => items.isEmpty
  | .inlineTable _ entries => entries.isEmpty
  | .table _ entries => entries.isEmpty
  | .tables items => items.isEmpty
  | _ => false

def ofEntries? : Toml.Entries -> Option EntityType
  | [(key, value)] => if isEmptyValue value then ofExactName? key else none
  | _ => none

/--
Reads a catalogue from a value: its exact name, or a table whose one key is the
name and whose value holds nothing.
-/
def ofValue? : Toml.Value -> Option EntityType
  | .string name => ofExactName? name
  | .inlineTable _ entries => ofEntries? entries
  | .table _ entries => ofEntries? entries
  | _ => none

def listOfValue? : Toml.Value -> Option (List EntityType)
  | .array items => items.mapM ofValue?
  | .tables items => items.reverse.mapM ofEntries?
  | _ => none

end EntityType

namespace Config

def capacityOfValue? : Toml.Value -> Option Nat
  | .integer value => if 0 ≤ value then some value.toNat else none
  | _ => none

def field? (entries : Toml.Entries) (name : String) (default : α)
    (ofValue? : Toml.Value -> Option α) : Option α :=
  match entries.find? name with
  | none => some default
  | some value => ofValue? value

def ofToml? (text : String) : Option Config := do
  let entries ← Toml.read? text
  let standard : Config := {}
  let types ← field? entries "entity_types" standard.types EntityType.listOfValue?
  let capacity ← field? entries "block_capacity" standard.capacity capacityOfValue?
  return { types, capacity }

def ofDocument (text : String) : Except IndexError Config :=
  match ofToml? text with
  | none => .error .configSyntax
  | some config => config.validate.map fun () => config

end Config

end PostingIndex
