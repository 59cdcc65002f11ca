import PostingIndex.Bytes.LittleEndian

/-!
# LZ4 sections

A compressed section is the size of its contents, four bytes wide, followed by
one LZ4 block.  A block is a row of sequences: literal bytes, then a reference
back into what was already produced.  The last sequence has no reference.

## Contents

Decompression of any section, and compression into one sequence of literals.
-/

namespace PostingIndex

namespace Lz4

/-!
## Decompression
-/

def continueLength (length : Nat) : List UInt8 -> Option (Nat × List UInt8)
  | [] => none
  | byte :: rest =>
      if byte = 255 then
        continueLength (length + 255) rest
      else
        some (length + byte.toNat, rest)

def readLength (half : Nat) (rest : List UInt8) : Option (Nat × List UInt8) :=
  if half < 15 then some (half, rest) else continueLength half rest

def copyBack (offset : Nat) : Nat -> Array UInt8 -> Array UInt8
  | 0, output => output
  | count + 1, output =>
      copyBack offset count (output.push (output.getD (output.size - offset) 0))

def decodeSequences (limit : Nat) : Nat -> Array UInt8 -> List UInt8 ->
    Option (Array UInt8)
  | 0, _, _ => none
  | _ + 1, _, [] => none
  | fuel + 1, output, token :: rest => do
      let (literals, rest) ← readLength (token.toNat / 16) rest
      let output := output ++ rest.take literals
      if rest.length < literals ∨ limit < output.size then
        none
      else
        match rest.drop literals with
        | [] => some output
        | rest => do
            let (offset, rest) ← LittleEndian.read? 2 rest
            let (extra, rest) ← readLength (token.toNat % 16) rest
            let count := extra + 4
            if offset = 0 ∨ output.size < offset ∨ limit < output.size + count then
              none
            else
              decodeSequences limit fuel (copyBack offset count output) rest

/-- Decompresses a section.  Contents shorter than announced are accepted. -/
def decompress? (data : List UInt8) : Option (List UInt8) := do
  let (size, block) ← LittleEndian.read? 4 data
  let output ← decodeSequences size block.length #[] block
  return output.toList

/-!
## Compression
-/

def literalStart (length : Nat) : List UInt8 :=
  if length < 15 then
    [UInt8.ofNat (length * 16)]
  else
    0xF0 :: (List.replicate ((length - 15) / 255) 255 ++
      [UInt8.ofNat ((length - 15) % 255)])

/-- Compresses a section into one sequence of literals. -/
def compress (data : List UInt8) : List UInt8 :=
  LittleEndian.bytes 4 data.length ++ (literalStart data.length ++ data)

end Lz4

end PostingIndex
