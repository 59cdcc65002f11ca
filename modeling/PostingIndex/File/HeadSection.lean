import PostingIndex.Bytes.LittleEndian
import PostingIndex.File.Link
import PostingIndex.HeadTable

/-!
# Head tables in files

The head table of a file holds, for each configured catalogue, its tag, the
number of known entities, four bytes wide, and the heads of all of them.

## Contents

Writing a head table and parsing one.
-/

namespace PostingIndex

namespace HeadSection

def encodeRow (type : EntityType) (heads : Array (Option BlockId)) : List UInt8 :=
  type.tag :: (LittleEndian.bytes 4 heads.size ++
    heads.toList.flatMap fun head => LittleEndian.bytes 4 (Link.word head).toNat)

def encode (table : HeadTable) : List UInt8 :=
  table.types.flatMap fun type =>
    match table.heads? type with
    | some heads => encodeRow type heads
    | none => []

def readHeads (heads : Array (Option BlockId)) : Nat -> List UInt8 ->
    Option (Array (Option BlockId) × List UInt8)
  | 0, input => some (heads, input)
  | count + 1, input =>
      match LittleEndian.read? 4 input with
      | none => none
      | some (word, input) =>
          readHeads (heads.push (Link.ofWord (UInt32.ofNat word))) count input

def parseRows (rows : List HeadRow) (position : Nat) : Nat -> List UInt8 ->
    Except IndexError HeadTable
  | 0, input =>
      if input.isEmpty then
        .ok { rows := rows.reverse }
      else
        .error (.corruptData position)
  | _ + 1, [] => .error .truncated
  | count + 1, tag :: input =>
      match EntityType.ofTag? tag with
      | none => .error (.corruptData position)
      | some type =>
          if type ∈ rows.map HeadRow.type then
            .error (.corruptData position)
          else
            match LittleEndian.read? 4 input with
            | none => .error .truncated
            | some (known, input) =>
                match readHeads #[] known input with
                | none => .error .truncated
                | some (heads, input) =>
                    parseRows ({ type, heads } :: rows) (position + 5 + 4 * known)
                      count input

def parse (typeCount : Nat) (input : List UInt8) : Except IndexError HeadTable :=
  parseRows [] 0 typeCount input

end HeadSection

end PostingIndex
