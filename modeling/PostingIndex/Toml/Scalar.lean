import PostingIndex.Text.Hexadecimal

/-!
# TOML scalars

## Contents

Reading the strings, numbers, dates and times of a TOML document.  A reader
takes the characters that it understands from the start of a text and gives
back the rest.
-/

namespace PostingIndex

namespace Toml

/-!
## Characters
-/

def isBlank (c : Char) : Bool :=
  c = ' ' || c = '\t'

def isLineChar (c : Char) : Bool :=
  c = '\t' || (32 ≤ c.toNat && c.toNat ≠ 127)

def lineBreak? : List Char -> Option (List Char)
  | '\n' :: rest => some rest
  | '\r' :: '\n' :: rest => some rest
  | _ => none

/-!
## Strings
-/

def hexEscape? (digits : List Char) : Option Char := do
  let code ← Hexadecimal.onto? 0 digits
  if code < 0xD800 ∨ (0xE000 ≤ code ∧ code < 0x110000) then
    some (Char.ofNat code)
  else
    none

def readEscape : List Char -> Option (Char × List Char)
  | 'u' :: a :: b :: c :: d :: rest =>
      (hexEscape? [a, b, c, d]).map fun char => (char, rest)
  | 'U' :: a :: b :: c :: d :: e :: f :: g :: h :: rest =>
      (hexEscape? [a, b, c, d, e, f, g, h]).map fun char => (char, rest)
  | 'b' :: rest => some (Char.ofNat 8, rest)
  | 't' :: rest => some ('\t', rest)
  | 'n' :: rest => some ('\n', rest)
  | 'f' :: rest => some (Char.ofNat 12, rest)
  | 'r' :: rest => some ('\r', rest)
  | '"' :: rest => some ('"', rest)
  | '\\' :: rest => some ('\\', rest)
  | _ => none

def readBasic (read : List Char) : Nat -> List Char -> Option (String × List Char)
  | 0, _ => none
  | _ + 1, [] => none
  | _ + 1, '"' :: rest => some (String.ofList read.reverse, rest)
  | fuel + 1, '\\' :: rest =>
      match readEscape rest with
      | none => none
      | some (c, rest) => readBasic (c :: read) fuel rest
  | fuel + 1, c :: rest => if isLineChar c then readBasic (c :: read) fuel rest else none

def readLiteral (read : List Char) : List Char -> Option (String × List Char)
  | [] => none
  | '\'' :: rest => some (String.ofList read.reverse, rest)
  | c :: rest => if isLineChar c then readLiteral (c :: read) rest else none

def quoteRun (quote : Char) (text : List Char) : Nat :=
  (text.takeWhile fun c => c = quote).length

/--
Drops blanks and line breaks, of which a carriage return is only part of one
before a line feed.
-/
def skipLines : Nat -> List Char -> List Char
  | 0, text => text
  | fuel + 1, text =>
      let rest := text.dropWhile isBlank
      match lineBreak? rest with
      | none => rest
      | some rest => skipLines fuel rest

/--
Reads the rest of a string of several lines.  Up to two quotes may stand before
the three that end it.  Escapes are read where `escapes` holds.
-/
def readLines (quote : Char) (escapes : Bool) (read : List Char) :
    Nat -> List Char -> Option (String × List Char)
  | 0, _ => none
  | _ + 1, [] => none
  | fuel + 1, c :: rest =>
      if c = quote then
        let run := quoteRun quote (c :: rest)
        if run < 3 then
          readLines quote escapes (c :: read) fuel rest
        else if run ≤ 5 then
          let kept := List.replicate (run - 3) quote
          some (String.ofList (read.reverse ++ kept), (c :: rest).drop run)
        else
          none
      else if c = '\\' ∧ escapes then
        match lineBreak? (rest.dropWhile isBlank) with
        | some rest => readLines quote escapes read fuel (skipLines rest.length rest)
        | none =>
            match readEscape rest with
            | none => none
            | some (escaped, rest) => readLines quote escapes (escaped :: read) fuel rest
      else
        match lineBreak? (c :: rest) with
        | some rest => readLines quote escapes ('\n' :: read) fuel rest
        | none =>
            if isLineChar c then readLines quote escapes (c :: read) fuel rest else none

def dropLineBreak (text : List Char) : List Char :=
  (lineBreak? text).getD text

def readLineString (text : List Char) : Option (String × List Char) :=
  match text with
  | '"' :: rest => readBasic [] (rest.length + 1) rest
  | '\'' :: rest => readLiteral [] rest
  | _ => none

def readString (text : List Char) : Option (String × List Char) :=
  match text with
  | '"' :: '"' :: '"' :: rest =>
      readLines '"' true [] (rest.length + 1) (dropLineBreak rest)
  | '\'' :: '\'' :: '\'' :: rest =>
      readLines '\'' false [] (rest.length + 1) (dropLineBreak rest)
  | _ => readLineString text

/-!
## Numbers
-/

def readDigitsOnto (isDigit : Char -> Bool) (read : List Char) :
    List Char -> Option (List Char × List Char)
  | [] => some (read.reverse, [])
  | c :: rest =>
      if isDigit c then
        readDigitsOnto isDigit (c :: read) rest
      else if c = '_' then
        match rest with
        | [] => none
        | next :: rest =>
            if isDigit next then readDigitsOnto isDigit (next :: read) rest else none
      else
        some (read.reverse, c :: rest)

def readDigits (isDigit : Char -> Bool) : List Char -> Option (List Char × List Char)
  | [] => none
  | c :: rest => if isDigit c then readDigitsOnto isDigit [c] rest else none

def readWhole : List Char -> Option (List Char × List Char)
  | '0' :: rest => some (['0'], rest)
  | text => readDigits Char.isDigit text

def readSign : List Char -> Bool × List Char
  | '+' :: rest => (false, rest)
  | '-' :: rest => (true, rest)
  | text => (false, text)

def valueOf (base : Nat) (digits : List Char) : Nat :=
  digits.foldl (fun value c => base * value + (Hexadecimal.value? c).getD 0) 0

def fits (value : Int) : Bool :=
  Int64.minValue.toInt ≤ value && value ≤ Int64.maxValue.toInt

def readBased (base : Nat) (text : List Char) : Option (Int × List Char) := do
  let isDigit (c : Char) : Bool :=
    match Hexadecimal.value? c with
    | none => false
    | some digit => digit < base
  let (digits, rest) ← readDigits isDigit text
  let value : Int := valueOf base digits
  if fits value then some (value, rest) else none

def readInteger (text : List Char) : Option (Int × List Char) :=
  match text with
  | '0' :: 'x' :: rest => readBased 16 rest
  | '0' :: 'o' :: rest => readBased 8 rest
  | '0' :: 'b' :: rest => readBased 2 rest
  | _ => do
      let (negative, rest) := readSign text
      let (digits, rest) ← readWhole rest
      let size : Int := valueOf 10 digits
      let value := if negative then -size else size
      if fits value then some (value, rest) else none

structure FloatParts where
  negative : Bool
  digits : Nat
  exponent : Int

/--
Whether a number lies beyond the largest double.  The bound is half a unit
above it, 2 to the power 1024 less 2 to the power 970.
-/
def FloatParts.overflows (parts : FloatParts) : Bool :=
  let bound := Nat.pow 2 1024 - Nat.pow 2 970
  let places := (toString parts.digits).length
  let scale := parts.exponent + places
  if parts.digits = 0 ∨ scale < 300 then
    false
  else if 320 < scale then
    true
  else if 0 ≤ parts.exponent then
    bound ≤ parts.digits * Nat.pow 10 parts.exponent.toNat
  else
    bound * Nat.pow 10 (-parts.exponent).toNat ≤ parts.digits

def readFraction (text : List Char) : Option (Option (List Char) × List Char) :=
  match text with
  | '.' :: rest =>
      (readDigits Char.isDigit rest).map fun (digits, rest) => (some digits, rest)
  | _ => some (none, text)

def readExponent (text : List Char) : Option (Option Int × List Char) :=
  match text with
  | [] => some (none, [])
  | c :: rest =>
      if c = 'e' ∨ c = 'E' then
        let (negative, rest) := readSign rest
        (readDigits Char.isDigit rest).map fun (digits, rest) =>
          let size : Int := valueOf 10 digits
          (some (if negative then -size else size), rest)
      else
        some (none, text)

def readFloatParts (text : List Char) : Option (FloatParts × List Char) := do
  let (negative, rest) := readSign text
  let (whole, rest) ← readWhole rest
  let (fraction, rest) ← readFraction rest
  let (exponent, rest) ← readExponent rest
  if fraction.isNone ∧ exponent.isNone then
    none
  else
    let places := fraction.getD []
    some (
      { negative
        digits := valueOf 10 (whole ++ places)
        exponent := exponent.getD 0 - places.length },
      rest)

def readSpecial (text : List Char) : Option (Unit × List Char) :=
  match (readSign text).2 with
  | 'i' :: 'n' :: 'f' :: rest => some ((), rest)
  | 'n' :: 'a' :: 'n' :: rest => some ((), rest)
  | _ => none

/--
Reads a number that is not whole.  A positive number that is too large is
refused; a negative one is taken as infinite.
-/
def readFloat (text : List Char) : Option (Unit × List Char) :=
  match readFloatParts text with
  | some (parts, rest) =>
      if parts.overflows ∧ !parts.negative then none else some ((), rest)
  | none => readSpecial text

/-!
## Dates and times
-/

def readFixed (width : Nat) (text : List Char) : Option (Nat × List Char) :=
  let digits := text.take width
  if digits.length = width ∧ digits.all Char.isDigit then
    some (valueOf 10 digits, text.drop width)
  else
    none

def readChar (expected : Char) : List Char -> Option (List Char)
  | [] => none
  | c :: rest => if c = expected then some rest else none

def daysOfMonth (year month : Nat) : Nat :=
  if month = 2 then
    if year % 4 = 0 ∧ (year % 100 ≠ 0 ∨ year % 400 = 0) then 29 else 28
  else if month = 4 ∨ month = 6 ∨ month = 9 ∨ month = 11 then
    30
  else
    31

def readDate (text : List Char) : Option (Unit × List Char) := do
  let (year, rest) ← readFixed 4 text
  let rest ← readChar '-' rest
  let (month, rest) ← readFixed 2 rest
  let rest ← readChar '-' rest
  let (day, rest) ← readFixed 2 rest
  if 1 ≤ month ∧ month ≤ 12 ∧ 1 ≤ day ∧ day ≤ daysOfMonth year month then
    some ((), rest)
  else
    none

def readHourMinute (text : List Char) : Option (Unit × List Char) := do
  let (hour, rest) ← readFixed 2 text
  let rest ← readChar ':' rest
  let (minute, rest) ← readFixed 2 rest
  if hour ≤ 23 ∧ minute ≤ 59 then some ((), rest) else none

/-- Reads a time of day; the second may be a leap second. -/
def readTime (text : List Char) : Option (Unit × List Char) := do
  let (_, rest) ← readHourMinute text
  let rest ← readChar ':' rest
  let (second, rest) ← readFixed 2 rest
  if 60 < second then
    none
  else
    match rest with
    | '.' :: c :: after =>
        if c.isDigit then
          some ((), after.dropWhile Char.isDigit)
        else
          some ((), rest)
    | _ => some ((), rest)

def readZone (text : List Char) : Option (Unit × List Char) :=
  match text with
  | 'Z' :: rest => some ((), rest)
  | 'z' :: rest => some ((), rest)
  | '+' :: rest => readHourMinute rest
  | '-' :: rest => readHourMinute rest
  | _ => some ((), text)

def readTimeAfterDate (text : List Char) : Option (Unit × List Char) :=
  match text with
  | [] => some ((), [])
  | c :: rest =>
      if c = 'T' ∨ c = 't' ∨ c = ' ' then
        match readTime rest with
        | some (_, rest) => readZone rest
        | none => some ((), text)
      else
        some ((), text)

def readMoment (text : List Char) : Option (Unit × List Char) :=
  match readDate text with
  | some (_, rest) => readTimeAfterDate rest
  | none => readTime text

end Toml

end PostingIndex
