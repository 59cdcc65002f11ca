import PostingIndex.Toml.Scalar
import PostingIndex.Toml.Table

/-!
# TOML documents

## Contents

Reading keys, values and whole documents.
-/

namespace PostingIndex

namespace Toml

/-!
## Keys
-/

def isKeyChar (c : Char) : Bool :=
  c.isAlphanum || c = '_' || c = '-'

def readKeyPart (text : List Char) : Option (String × List Char) :=
  match text with
  | '"' :: _ => readLineString text
  | '\'' :: _ => readLineString text
  | _ =>
      let name := text.takeWhile isKeyChar
      if name.isEmpty then
        none
      else
        some (String.ofList name, text.dropWhile isKeyChar)

def readKeyOnto (parts : List String) : Nat -> List Char -> Option (List String × List Char)
  | 0, _ => none
  | fuel + 1, text =>
      match readKeyPart (text.dropWhile isBlank) with
      | none => none
      | some (part, rest) =>
          match rest.dropWhile isBlank with
          | '.' :: rest => readKeyOnto (part :: parts) fuel rest
          | rest => some ((part :: parts).reverse, rest)

/-- The number of parts that no key may reach, and of levels that no value may. -/
def nestingLimit : Nat :=
  80

def readKey (text : List Char) : Option (List String × List Char) :=
  match readKeyOnto [] (text.length + 1) text with
  | some (parts, rest) => if parts.length < nestingLimit then some (parts, rest) else none
  | none => none

/-!
## Values
-/

def dropComment (text : List Char) : List Char :=
  match text with
  | '#' :: rest => rest.dropWhile isLineChar
  | _ => text

def dropFiller : Nat -> List Char -> List Char
  | 0, text => text
  | fuel + 1, text =>
      let rest := text.dropWhile isBlank
      match lineBreak? (dropComment rest) with
      | some rest => dropFiller fuel rest
      | none => rest

def skipFiller (text : List Char) : List Char :=
  dropFiller (text.length + 1) text

def readItems (readValue : List Char -> Option (Value × List Char)) (items : List Value) :
    Nat -> List Char -> Option (Value × List Char)
  | 0, _ => none
  | fuel + 1, text =>
      match skipFiller text with
      | ']' :: rest => some (.array items.reverse, rest)
      | text =>
          match readValue text with
          | none => none
          | some (item, rest) =>
              match skipFiller rest with
              | ',' :: rest => readItems readValue (item :: items) fuel rest
              | ']' :: rest => some (.array (item :: items).reverse, rest)
              | _ => none

def readPair (readValue : List Char -> Option (Value × List Char)) (text : List Char) :
    Option ((List String × Value) × List Char) := do
  let (key, rest) ← readKey text
  let rest ← readChar '=' rest
  let (value, rest) ← readValue (rest.dropWhile isBlank)
  some ((key, value), rest)

def readPairs (readValue : List Char -> Option (Value × List Char)) (entries : Entries) :
    Nat -> List Char -> Option (Value × List Char)
  | 0, _ => none
  | fuel + 1, text =>
      match readPair readValue text with
      | none => none
      | some ((key, value), rest) =>
          match entries.insertInline? key value with
          | none => none
          | some entries =>
              match rest.dropWhile isBlank with
              | ',' :: rest => readPairs readValue entries fuel rest
              | '\x7d' :: rest => some (.inlineTable .header entries, rest)
              | _ => none

def readNumeric (text : List Char) : Option (Value × List Char) :=
  match readMoment text with
  | some (_, rest) => some (.scalar, rest)
  | none =>
      match readFloat text with
      | some (_, rest) => some (.scalar, rest)
      | none =>
          match readFloatParts text with
          | some _ => none
          | none => (readInteger text).map fun (value, rest) => (.integer value, rest)

def readScalar (text : List Char) : Option (Value × List Char) :=
  match text with
  | [] => none
  | '"' :: _ => (readString text).map fun (string, rest) => (.string string, rest)
  | '\'' :: _ => (readString text).map fun (string, rest) => (.string string, rest)
  | 't' :: 'r' :: 'u' :: 'e' :: rest => some (.scalar, rest)
  | 'f' :: 'a' :: 'l' :: 's' :: 'e' :: rest => some (.scalar, rest)
  | c :: _ =>
      if c.isDigit ∨ c = '+' ∨ c = '-' then
        readNumeric text
      else
        (readSpecial text).map fun (_, rest) => (.scalar, rest)

/-- Reads a value in which brackets are nested at most `levels` deep. -/
def readValue : Nat -> List Char -> Option (Value × List Char)
  | 0, text => readScalar text
  | levels + 1, text =>
      match text with
      | '[' :: rest => readItems (readValue levels) [] (rest.length + 1) rest
      | '\x7b' :: rest =>
          match rest.dropWhile isBlank with
          | '\x7d' :: rest => some (.inlineTable .header [], rest)
          | _ => readPairs (readValue levels) [] (rest.length + 1) rest
      | _ => readScalar text

/-!
## Documents
-/

def endLine? (text : List Char) : Option (List Char) :=
  match dropComment (text.dropWhile isBlank) with
  | [] => some []
  | rest => lineBreak? rest

def readLine (builder : Builder) (text : List Char) : Option (Builder × List Char) :=
  match text with
  | '[' :: '[' :: rest => do
      let (key, rest) ← readKey rest
      let rest ← readChar ']' rest
      let rest ← readChar ']' rest
      let rest ← endLine? rest
      let builder ← builder.arrayHeader? key
      some (builder, rest)
  | '[' :: rest => do
      let (key, rest) ← readKey rest
      let rest ← readChar ']' rest
      let rest ← endLine? rest
      let builder ← builder.tableHeader? key
      some (builder, rest)
  | '#' :: _ => (endLine? text).map fun rest => (builder, rest)
  | '\n' :: rest => some (builder, rest)
  | '\r' :: '\n' :: rest => some (builder, rest)
  | _ => do
      let ((key, value), rest) ← readPair (readValue (nestingLimit - 1)) text
      let rest ← endLine? rest
      let builder ← builder.line? key value
      some (builder, rest)

def readDocument (builder : Builder) : Nat -> List Char -> Option Entries
  | 0, _ => none
  | fuel + 1, text =>
      match text.dropWhile isBlank with
      | [] => builder.close?
      | text =>
          match readLine builder text with
          | none => none
          | some (builder, rest) => readDocument builder fuel rest

def read? (text : String) : Option Entries :=
  let chars := text.toList
  let chars := if chars.head? = some (Char.ofNat 0xFEFF) then chars.drop 1 else chars
  readDocument {} (chars.length + 1) chars

end Toml

end PostingIndex
