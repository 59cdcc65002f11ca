import PostingIndex.Bytes.Crc32
import PostingIndex.Bytes.LittleEndian
import PostingIndex.Fault
import PostingIndex.File.Link

/-!
# Pages

A page holds one block in a file.  All pages of a file have the same size: a
header of 16 bytes, then the postings, eight bytes each, then zeros up to the
capacity.

## Contents

Pages, writing one and parsing one.  The fields of the header are the link, the
number of postings, the flags, the checksum of the postings and a reserved word.
-/

namespace PostingIndex

/-- A block as a page stores it. -/
structure Page where
  block : Block
  free : Bool := false
deriving DecidableEq

namespace Page

def headerSize : Nat :=
  16

def postingSize : Nat :=
  8

def size (capacity : Nat) : Nat :=
  headerSize + capacity * postingSize

def body (postings : List Posting) : List UInt8 :=
  postings.flatMap fun posting =>
    LittleEndian.bytes 4 posting.game.toNat ++ LittleEndian.bytes 4 posting.count.toNat

def encode (capacity : Nat) (page : Page) : List UInt8 :=
  let postings := page.block.postings
  let content := body postings
  LittleEndian.bytes 4 (Link.word page.block.next).toNat ++
    (LittleEndian.bytes 2 postings.length ++
    (LittleEndian.bytes 2 (if page.free then 1 else 0) ++
    (LittleEndian.bytes 4 (Crc32.checksum content).toNat ++
    (LittleEndian.bytes 4 0 ++
    (content ++ List.replicate ((capacity - postings.length) * postingSize) 0)))))

def readPostings (read : List Posting) : Nat -> List UInt8 -> Option (List Posting)
  | 0, _ => some read.reverse
  | count + 1, input =>
      match LittleEndian.read? 4 input with
      | none => none
      | some (game, input) =>
          match LittleEndian.read? 4 input with
          | none => none
          | some (appearances, input) =>
              let posting : Posting :=
                { game := UInt32.ofNat game, count := UInt32.ofNat appearances }
              readPostings (posting :: read) count input

structure Fields where
  next : UInt32
  length : Nat
  flags : Nat
  checksum : UInt32

def readFields? (input : List UInt8) : Option (Fields × List UInt8) := do
  let (next, input) ← LittleEndian.read? 4 input
  let (length, input) ← LittleEndian.read? 2 input
  let (flags, input) ← LittleEndian.read? 2 input
  let (checksum, input) ← LittleEndian.read? 4 input
  return (
    { next := UInt32.ofNat next, length, flags, checksum := UInt32.ofNat checksum },
    input)

/--
Reads the bytes of the postings.  The reserved word before them may hold
anything.
-/
def readBody? (length : Nat) (input : List UInt8) : Option (List UInt8) :=
  match LittleEndian.read? 4 input with
  | none => none
  | some (_, rest) =>
      let content := rest.take (length * postingSize)
      if content.length < length * postingSize then none else some content

def parse (id : BlockId) (capacity : Nat) (input : List UInt8) :
    Except IndexError Page :=
  match readFields? input with
  | none => .error .truncated
  | some (fields, rest) =>
      if capacity < fields.length then
        .error (.corruptChain id (.pageOverfull fields.length capacity))
      else
        match readBody? fields.length rest with
        | none => .error .truncated
        | some content =>
            if Crc32.checksum content ≠ fields.checksum then
              .error (.checksumMismatch id)
            else
              match readPostings [] fields.length content with
              | none => .error .truncated
              | some postings =>
                  .ok {
                    block := { postings, next := Link.ofWord fields.next }
                    free := fields.flags % 2 = 1 }

end Page

end PostingIndex
