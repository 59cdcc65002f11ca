/-!
# Decimal numbers

## Contents

Reading decimal digits, and numbers of 32 and 64 bits written with them.
-/

namespace PostingIndex

namespace Decimal

def digit? (c : Char) : Option Nat :=
  if c.isDigit then some (c.toNat - 48) else none

def digitsOnto? (value : Nat) : List Char -> Option Nat
  | [] => some value
  | c :: rest =>
      match digit? c with
      | none => none
      | some digit => digitsOnto? (10 * value + digit) rest

def digits? : List Char -> Option Nat
  | [] => none
  | c :: rest => digitsOnto? 0 (c :: rest)

def natural? : List Char -> Option Nat
  | '+' :: rest => digits? rest
  | text => digits? text

def below? (bound : Nat) (text : List Char) : Option Nat :=
  match natural? text with
  | none => none
  | some value => if value < bound then some value else none

def uint32? (text : List Char) : Option UInt32 :=
  (below? UInt32.size text).map UInt32.ofNat

/--
Reads a whole number with an optional sign, whose value has to be a number of
32 bits.  Zero may be negative.
-/
def signedUInt32? : List Char -> Option UInt32
  | '-' :: rest =>
      match digits? rest with
      | some 0 => some 0
      | _ => none
  | text => uint32? text

end Decimal

end PostingIndex
