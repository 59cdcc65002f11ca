import PostingIndex.Text.Hexadecimal

/-!
# Writing JSON

## Contents

The JSON values that reports are made of, and their text on one line and on
indented lines.
-/

namespace PostingIndex

/-- A JSON value of a report.  Reports hold no other numbers than naturals. -/
inductive Json where
  | bool (value : Bool)
  | number (value : Nat)
  | string (value : String)
  | array (items : List Json)
  | object (members : List (String × Json))

namespace Json

def sorted (members : List (String × Json)) : Json :=
  .object (members.mergeSort fun a b => a.1 ≤ b.1)

def charText (c : Char) : List Char :=
  if c = '"' then ['\\', '"']
  else if c = '\\' then ['\\', '\\']
  else if c = '\n' then ['\\', 'n']
  else if c = '\r' then ['\\', 'r']
  else if c = '\t' then ['\\', 't']
  else if c.toNat = 8 then ['\\', 'b']
  else if c.toNat = 12 then ['\\', 'f']
  else if c.toNat < 32 then
    ['\\', 'u', '0', '0', Hexadecimal.digit (c.toNat / 16),
      Hexadecimal.digit (c.toNat % 16)]
  else
    [c]

def quoted (text : String) : String :=
  String.ofList ('"' :: (text.toList.flatMap charText ++ ['"']))

mutual

def compact : Json -> String
  | bool value => if value then "true" else "false"
  | number value => toString value
  | string value => quoted value
  | array items => "[" ++ ",".intercalate (compactItems [] items) ++ "]"
  | object members => "\x7b" ++ ",".intercalate (compactMembers [] members) ++ "\x7d"

def compactItems (texts : List String) : List Json -> List String
  | [] => texts.reverse
  | item :: rest => compactItems (compact item :: texts) rest

def compactMembers (texts : List String) : List (String × Json) -> List String
  | [] => texts.reverse
  | (key, value) :: rest =>
      compactMembers ((quoted key ++ ":" ++ compact value) :: texts) rest

end

def indent (level : Nat) : String :=
  String.ofList (List.replicate (2 * level) ' ')

def bracketed (level : Nat) (left right : String) (lines : List String) : String :=
  if lines.isEmpty then
    left ++ right
  else
    left ++ "\n" ++ ",\n".intercalate (lines.map fun line => indent (level + 1) ++ line) ++
      "\n" ++ indent level ++ right

mutual

def prettyAt (level : Nat) : Json -> String
  | bool value => if value then "true" else "false"
  | number value => toString value
  | string value => quoted value
  | array items => bracketed level "[" "]" (prettyItems (level + 1) [] items)
  | object members =>
      bracketed level "\x7b" "\x7d" (prettyMembers (level + 1) [] members)

def prettyItems (level : Nat) (texts : List String) : List Json -> List String
  | [] => texts.reverse
  | item :: rest => prettyItems level (prettyAt level item :: texts) rest

def prettyMembers (level : Nat) (texts : List String) :
    List (String × Json) -> List String
  | [] => texts.reverse
  | (key, value) :: rest =>
      prettyMembers level ((quoted key ++ ": " ++ prettyAt level value) :: texts) rest

end

def pretty (value : Json) : String :=
  prettyAt 0 value

end Json

end PostingIndex
