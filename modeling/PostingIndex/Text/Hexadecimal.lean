/-!
# Hexadecimal digits

## Contents

The values of hexadecimal digits, and the digits of values in lower case.
-/

namespace PostingIndex

namespace Hexadecimal

def value? (c : Char) : Option Nat :=
  if c.isDigit then some (c.toNat - 48)
  else if 'a' ≤ c ∧ c ≤ 'f' then some (c.toNat - 87)
  else if 'A' ≤ c ∧ c ≤ 'F' then some (c.toNat - 55)
  else none

def onto? (value : Nat) : List Char -> Option Nat
  | [] => some value
  | c :: rest =>
      match value? c with
      | none => none
      | some digit => onto? (16 * value + digit) rest

def digit (value : Nat) : Char :=
  Char.ofNat (if value < 10 then 48 + value else 87 + value)

def ofBytes (bytes : List UInt8) : String :=
  String.ofList (bytes.flatMap fun byte =>
    [digit (byte.toNat / 16), digit (byte.toNat % 16)])

end Hexadecimal

end PostingIndex
