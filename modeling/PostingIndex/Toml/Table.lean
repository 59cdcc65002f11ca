/-!
# TOML tables

A TOML document is one table, written in parts: lines with keys, headers of
tables, and headers of tables in arrays.  Which parts may extend which depends
on how a table came to be.

## Contents

Values and tables, following a path of keys into a table, and the rules for
lines and headers.
-/

namespace PostingIndex

namespace Toml

/-- How a table came to be. -/
inductive Origin where
  | header
  | implied
  | dotted
deriving DecidableEq

inductive Value where
  | string (text : String)
  | integer (value : Int)
  | scalar
  | array (items : List Value)
  | inlineTable (origin : Origin) (entries : List (String × Value))
  | table (origin : Origin) (entries : List (String × Value))
  | tables (items : List (List (String × Value)))

abbrev Entries :=
  List (String × Value)

namespace Entries

def find? (entries : Entries) (key : String) : Option Value :=
  entries.lookup key

def replace (entries : Entries) (key : String) (value : Value) : Entries :=
  match entries with
  | [] => []
  | entry :: rest =>
      if entry.1 = key then (key, value) :: rest else entry :: replace rest key value

def without (entries : Entries) (key : String) : Entries :=
  entries.filter fun entry => entry.1 ≠ key

def add? (entries : Entries) (key : String) (value : Value) : Option Entries :=
  match entries.find? key with
  | some _ => none
  | none => some (entries ++ [(key, value)])

/-!
## Following paths
-/

/--
Changes the table at the end of a path and gives back what the change found.
Tables on the path that do not exist are made.  A dotted key may not lead
through a table with a header of its own; any path leads into the latest table
of an array.
-/
def changeAt (isDotted : Bool) (change : Origin -> Entries -> Option (Entries × α)) :
    List String -> Origin -> Entries -> Option (Entries × α)
  | [], origin, entries => change origin entries
  | key :: path, _, entries =>
      match entries.find? key with
      | none => do
          let origin := if isDotted then Origin.dotted else Origin.implied
          let (inner, found) ← changeAt isDotted change path origin []
          some (entries ++ [(key, .table origin inner)], found)
      | some (.table origin inner) =>
          if isDotted ∧ origin = .header then
            none
          else do
            let (inner, found) ← changeAt isDotted change path origin inner
            some (entries.replace key (.table origin inner), found)
      | some (.tables (latest :: earlier)) => do
          let (latest, found) ← changeAt isDotted change path .header latest
          some (entries.replace key (.tables (latest :: earlier)), found)
      | some _ => none

/--
Changes the inline table at the end of a path of a dotted key.  The path may
not lead through a table that was written between braces.
-/
def changeInline (change : Origin -> Entries -> Option Entries) :
    List String -> Origin -> Entries -> Option Entries
  | [], origin, entries => change origin entries
  | key :: path, _, entries =>
      match entries.find? key with
      | none => do
          let inner ← changeInline change path .dotted []
          some (entries ++ [(key, .inlineTable .dotted inner)])
      | some (.inlineTable .dotted inner) => do
          let inner ← changeInline change path .dotted inner
          some (entries.replace key (.inlineTable .dotted inner))
      | some _ => none

/--
Adds a value under the last key of a path.  A dotted key may only extend tables
that dotted keys made, and a plain key may not extend those.
-/
def addLine? (path : List String) (value : Value) (origin : Origin)
    (entries : Entries) : Option Entries :=
  match path.getLast? with
  | none => none
  | some key =>
      let isPlain := path.length = 1
      if decide (origin = .dotted) = decide isPlain then
        none
      else
        entries.add? key value

def insertLine? (entries : Entries) (path : List String) (value : Value) :
    Option Entries := do
  let (entries, _) ← entries.changeAt true
    (fun origin inner => (inner.addLine? path value origin).map fun inner => (inner, ()))
    path.dropLast .header
  some entries

def insertInline? (entries : Entries) (path : List String) (value : Value) :
    Option Entries :=
  entries.changeInline (fun origin inner => inner.addLine? path value origin)
    path.dropLast .header

end Entries

/-!
## Building a document
-/

/-- A document of which the lines up to some point were read. -/
structure Builder where
  root : Entries := []
  current : Entries := []
  path : List String := []
  inArray : Bool := false

namespace Builder

def line? (builder : Builder) (path : List String) (value : Value) : Option Builder :=
  (builder.current.insertLine? path value).map fun current => { builder with current }

def store (inArray : Bool) (key : String) (finished entries : Entries) :
    Option (Entries × Unit) :=
  if inArray then
    match entries.find? key with
    | some (.tables items) =>
        some (entries.replace key (.tables (finished :: items)), ())
    | _ => none
  else
    (entries.add? key (.table .header finished)).map fun entries => (entries, ())

def close? (builder : Builder) : Option Entries :=
  match builder.path.getLast? with
  | none => some builder.current
  | some key => do
      let (root, _) ← builder.root.changeAt false
        (fun _ entries => store builder.inArray key builder.current entries)
        builder.path.dropLast .header
      some root

/-- Takes the table of a key out of its parent, if only headers implied it. -/
def takeImplied (key : String) (entries : Entries) : Option (Entries × Entries) :=
  match entries.find? key with
  | none => some (entries, [])
  | some (.table .implied inner) => some (entries.without key, inner)
  | some _ => none

def tableHeader? (builder : Builder) (path : List String) : Option Builder := do
  let root ← builder.close?
  let key ← path.getLast?
  let (root, current) ← root.changeAt false
    (fun _ entries => takeImplied key entries) path.dropLast .header
  some { root, current, path, inArray := false }

def ensureTables (key : String) (entries : Entries) : Option (Entries × Unit) :=
  match entries.find? key with
  | none => some (entries ++ [(key, .tables [])], ())
  | some (.tables _) => some (entries, ())
  | some _ => none

def arrayHeader? (builder : Builder) (path : List String) : Option Builder := do
  let root ← builder.close?
  let key ← path.getLast?
  let (root, _) ← root.changeAt false
    (fun _ entries => ensureTables key entries) path.dropLast .header
  some { root, current := [], path, inArray := true }

end Builder

end Toml

end PostingIndex
