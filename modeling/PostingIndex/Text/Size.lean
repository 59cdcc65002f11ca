/-!
# Sizes

## Contents

The text of a number of bytes, with one place in the larger units.
-/

namespace PostingIndex

namespace Size

/-- The whole number nearest to a quotient; a half goes to the even one. -/
def nearest (numerator denominator : Nat) : Nat :=
  let whole := numerator / denominator
  let rest := numerator % denominator
  if 2 * rest < denominator then
    whole
  else if denominator < 2 * rest then
    whole + 1
  else
    whole + whole % 2

def inUnit (unitSize : Nat) (unitName : String) (bytes : Nat) : String :=
  let tenths := nearest (10 * bytes) unitSize
  s!"{tenths / 10}.{tenths % 10} {unitName}"

def text (bytes : Nat) : String :=
  if bytes < 1024 then
    s!"{bytes} B"
  else if bytes < 1024 * 1024 then
    inUnit 1024 "KB" bytes
  else
    inUnit (1024 * 1024) "MB" bytes

end Size

end PostingIndex
