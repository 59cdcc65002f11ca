import PostingIndex.Json.Token
import PostingIndex.Text.Decimal

/-!
# JSON documents

## Contents

The value that a JSON text stands for, and the reader that builds it from
tokens.  The reader keeps the values that are still open on a stack, so values
may be nested to any depth.
-/

namespace PostingIndex

namespace Json

inductive Tree where
  | null
  | bool (value : Bool)
  | number (text : List Char)
  | string (text : Option (List Char))
  | array (items : List Tree)
  | object (members : List (Option (List Char) × Tree))

namespace Tree

/-- A value that is not finished.  What it holds is given latest first. -/
inductive Unfinished where
  | array (items : List Tree)
  | object (members : List (Option (List Char) × Tree)) (key : Option (List Char))

inductive Expected where
  | value
  | firstItem
  | firstKey
  | key
  | colon
  | more
  | nothing

structure State where
  stack : List Unfinished := []
  expected : Expected := .value
  document : Option Tree := none

namespace State

def finish (stack : List Unfinished) (value : Tree) : State :=
  match stack with
  | [] => { expected := .nothing, document := some value }
  | .array items :: rest => { stack := .array (value :: items) :: rest, expected := .more }
  | .object members key :: rest =>
      { stack := .object ((key, value) :: members) key :: rest, expected := .more }

def value? (stack : List Unfinished) : Token -> Option State
  | .openArray => some { stack := .array [] :: stack, expected := .firstItem }
  | .openObject => some { stack := .object [] none :: stack, expected := .firstKey }
  | .null => some (finish stack .null)
  | .bool value => some (finish stack (.bool value))
  | .number text => some (finish stack (.number text))
  | .string text => some (finish stack (.string text))
  | _ => none

def close? (stack : List Unfinished) : Token -> Option State
  | .closeArray =>
      match stack with
      | .array items :: rest => some (finish rest (.array items.reverse))
      | _ => none
  | .closeObject =>
      match stack with
      | .object members _ :: rest => some (finish rest (.object members.reverse))
      | _ => none
  | _ => none

def key? (stack : List Unfinished) : Token -> Option State
  | .string text =>
      match stack with
      | .object members _ :: rest =>
          some { stack := .object members text :: rest, expected := .colon }
      | _ => none
  | _ => none

def more? (stack : List Unfinished) (token : Token) : Option State :=
  if token = .comma then
    match stack with
    | .array _ :: _ => some { stack, expected := .value }
    | .object _ _ :: _ => some { stack, expected := .key }
    | [] => none
  else
    close? stack token

def take? (state : State) (token : Token) : Option State :=
  match state.expected with
  | .value => value? state.stack token
  | .firstItem =>
      if token = .closeArray then close? state.stack token else value? state.stack token
  | .firstKey =>
      if token = .closeObject then close? state.stack token else key? state.stack token
  | .key => key? state.stack token
  | .colon =>
      if token = .colon then some { state with expected := .value } else none
  | .more => more? state.stack token
  | .nothing => none

end State

def read? (text : String) : Option Tree := do
  let tokens ← Token.readAll text.toList
  let state ← tokens.foldlM State.take? {}
  state.document

/-!
## Looking into values
-/

def uint32? : Tree -> Option UInt32
  | .number text =>
      if text.all Char.isDigit then Decimal.uint32? text else none
  | _ => none

def listOf? (item? : Tree -> Option α) : Tree -> Option (List α)
  | .array items => items.mapM item?
  | _ => none

def optional? (value? : Tree -> Option α) : Tree -> Option (Option α)
  | .null => some none
  | tree => (value? tree).map some

def atMostOnce (keys : List String) (name : String) : Bool :=
  (keys.filter fun key => key = name).length ≤ 1

/--
The fields of a record with the given names.  A record is written as an object,
whose other members are ignored and whose own may not repeat, or as an array of
its fields in order, of which the last ones may be missing.
-/
def fields? (names : List String) : Tree -> Option (List (String × Tree))
  | .object members => do
      let named ← members.mapM fun (key, value) =>
        key.map fun key => (String.ofList key, value)
      if names.all (atMostOnce (named.map Prod.fst)) then some named else none
  | .array items => if items.length ≤ names.length then some (names.zip items) else none
  | _ => none

def field? (fields : List (String × Tree)) (name : String) (default : α)
    (value? : Tree -> Option α) : Option α :=
  match fields.lookup name with
  | none => some default
  | some tree => value? tree

end Tree

end Json

end PostingIndex
