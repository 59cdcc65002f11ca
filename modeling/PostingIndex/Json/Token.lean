import PostingIndex.Text.Hexadecimal

/-!
# Tokens of JSON documents

## Contents

The tokens of a JSON text and the reader that cuts a text into them.  A string
token holds its text, unless its escapes name no characters; such a string is
still a token, since a reader may never look at its text.
-/

namespace PostingIndex

namespace Json

inductive Token where
  | openArray
  | closeArray
  | openObject
  | closeObject
  | comma
  | colon
  | null
  | bool (value : Bool)
  | number (text : List Char)
  | string (text : Option (List Char))
deriving DecidableEq

namespace Token

/-!
## Strings
-/

def simpleEscape? (c : Char) : Option Char :=
  if c = '"' then some '"'
  else if c = '\\' then some '\\'
  else if c = '/' then some '/'
  else if c = 'b' then some (Char.ofNat 8)
  else if c = 'f' then some (Char.ofNat 12)
  else if c = 'n' then some '\n'
  else if c = 'r' then some '\r'
  else if c = 't' then some '\t'
  else none

/-- What was read of a string, latest first, unless an escape named no character. -/
structure StringState where
  text : Option (List Char) := some []
  half : Option Nat := none

namespace StringState

def settle (state : StringState) : StringState :=
  match state.half with
  | none => state
  | some _ => { text := none, half := none }

def add (state : StringState) (c : Char) : StringState :=
  let settled := state.settle
  { settled with text := settled.text.map fun text => c :: text }

def addUnit (state : StringState) (unit : Nat) : StringState :=
  if 0xD800 ≤ unit ∧ unit < 0xDC00 then
    { state.settle with half := some unit }
  else if 0xDC00 ≤ unit ∧ unit < 0xE000 then
    match state.half with
    | none => { text := none, half := none }
    | some high =>
        let code := 0x10000 + (high - 0xD800) * 0x400 + (unit - 0xDC00)
        { text := state.text.map fun text => Char.ofNat code :: text, half := none }
  else
    state.add (Char.ofNat unit)

end StringState

/--
Reads the rest of a string after its opening quote.  Control characters and
unknown escapes are refused.
-/
def readString (state : StringState) : List Char -> Option (Token × List Char)
  | [] => none
  | '"' :: rest => some (.string (state.settle.text.map List.reverse), rest)
  | '\\' :: 'u' :: a :: b :: c :: d :: rest =>
      match Hexadecimal.onto? 0 [a, b, c, d] with
      | none => none
      | some unit => readString (state.addUnit unit) rest
  | '\\' :: c :: rest =>
      match simpleEscape? c with
      | none => none
      | some escaped => readString (state.add escaped) rest
  | c :: rest =>
      if c.toNat < 32 then none else readString (state.add c) rest

/-!
## Numbers
-/

def readDigits (text : List Char) : Option (List Char × List Char) :=
  let digits := text.takeWhile Char.isDigit
  if digits.isEmpty then none else some (digits, text.dropWhile Char.isDigit)

def readWhole (text : List Char) : Option (List Char × List Char) :=
  match readDigits text with
  | some ('0' :: _ :: _, _) => none
  | other => other

def readFraction (text : List Char) : Option (List Char × List Char) :=
  match text with
  | '.' :: rest =>
      (readDigits rest).map fun (digits, rest) => ('.' :: digits, rest)
  | _ => some ([], text)

def readSign (text : List Char) : List Char × List Char :=
  match text with
  | '+' :: rest => (['+'], rest)
  | '-' :: rest => (['-'], rest)
  | _ => ([], text)

def readExponent (text : List Char) : Option (List Char × List Char) :=
  match text with
  | [] => some ([], [])
  | c :: rest =>
      if c = 'e' ∨ c = 'E' then
        let (sign, rest) := readSign rest
        (readDigits rest).map fun (digits, rest) => (c :: (sign ++ digits), rest)
      else
        some ([], text)

def readUnsigned (text : List Char) : Option (List Char × List Char) := do
  let (whole, text) ← readWhole text
  let (fraction, text) ← readFraction text
  let (exponent, text) ← readExponent text
  return (whole ++ (fraction ++ exponent), text)

def readNumber (text : List Char) : Option (Token × List Char) :=
  match text with
  | '-' :: rest =>
      (readUnsigned rest).map fun (written, rest) => (.number ('-' :: written), rest)
  | _ => (readUnsigned text).map fun (written, rest) => (.number written, rest)

/-!
## All tokens
-/

def readOne : List Char -> Option (Token × List Char)
  | [] => none
  | '[' :: rest => some (.openArray, rest)
  | ']' :: rest => some (.closeArray, rest)
  | '\x7b' :: rest => some (.openObject, rest)
  | '\x7d' :: rest => some (.closeObject, rest)
  | ',' :: rest => some (.comma, rest)
  | ':' :: rest => some (.colon, rest)
  | '"' :: rest => readString {} rest
  | 'n' :: 'u' :: 'l' :: 'l' :: rest => some (.null, rest)
  | 't' :: 'r' :: 'u' :: 'e' :: rest => some (.bool true, rest)
  | 'f' :: 'a' :: 'l' :: 's' :: 'e' :: rest => some (.bool false, rest)
  | text => readNumber text

def isSpace (c : Char) : Bool :=
  c = ' ' || c = '\t' || c = '\n' || c = '\r'

/--
Reads tokens behind those already read, which are given latest first.  Every
token takes at least one character, so there are at most `fuel` of them.
-/
def readOnto (tokens : List Token) : Nat -> List Char -> Option (List Token)
  | 0, _ => none
  | fuel + 1, text =>
      match text.dropWhile isSpace with
      | [] => some tokens.reverse
      | c :: rest =>
          match readOne (c :: rest) with
          | none => none
          | some (token, rest) => readOnto (token :: tokens) fuel rest

def readAll (text : List Char) : Option (List Token) :=
  readOnto [] (text.length + 1) text

end Token

end Json

end PostingIndex
