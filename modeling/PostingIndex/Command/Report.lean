import PostingIndex.File.View
import PostingIndex.Index.Statistics
import PostingIndex.Json.Printer
import PostingIndex.Text.Calendar
import PostingIndex.Text.Size

/-!
# Reports of commands

## Contents

The texts that commands print: for each command one in words and one in JSON.
The keys of a JSON object are sorted, except for statistics.
-/

namespace PostingIndex

namespace Report

def lines (lines : List String) : String :=
  String.join (lines.map fun line => line ++ "\n")

def compact (value : Json) : String :=
  lines [value.compact]

def pretty (value : Json) : String :=
  lines [value.pretty]

def numbers (values : List UInt32) : Json :=
  .array (values.map fun value => .number value.toNat)

def created (path : String) : String :=
  lines [s!"Created {path}"]

/-!
## The file as a whole
-/

/-- What is reported about a file. -/
structure FileSummary where
  path : String
  header : FileHeader
  size : Nat
  extents : List (EntityType × UInt32)

def summaryJson (summary : FileSummary) : String :=
  let header := summary.header
  pretty (Json.sorted [
    ("file", .string summary.path),
    ("version", .number header.version.toNat),
    ("block_capacity", .number header.capacity.toNat),
    ("num_blocks", .number header.numBlocks.toNat),
    ("deleted_blocks", .number header.freeCount.toNat),
    ("created_at", .number header.createdAt.toNat),
    ("file_size", .number summary.size),
    ("entity_types", Json.sorted (summary.extents.map fun (type, known) =>
      (type.name, .number known.toNat)))])

def summaryText (summary : FileSummary) : String :=
  let header := summary.header
  lines ([
    s!"File: {summary.path}",
    s!"Version: {header.version}",
    s!"Block capacity: {header.capacity}",
    s!"Blocks: {header.numBlocks}",
    s!"Deleted blocks: {header.freeCount}",
    s!"Written: {Calendar.momentText header.createdAt.toNat}",
    s!"File size: {Size.text summary.size}",
    "Entity types:"] ++
    summary.extents.map fun (type, known) => s!"  {type.name}: {known} known")

/-!
## Changes
-/

def updated (json : Bool) (entity : Entity) (games : Nat) (pool : Pool) : String :=
  if json then
    compact (Json.sorted [
      ("type", .string entity.type.name),
      ("entity", .number entity.id.toNat),
      ("games", .number games),
      ("num_blocks", .number pool.numBlocks.toNat),
      ("deleted_blocks", .number pool.free.size)])
  else
    lines [s!"Updated {entity.label} ({games} games, " ++
      s!"{pool.numBlocks} blocks, {pool.free.size} deleted)"]

def applied (json : Bool) (games entities postings : Nat) : String :=
  if json then
    compact (Json.sorted [
      ("games", .number games),
      ("entities_updated", .number entities),
      ("postings_changed", .number postings)])
  else
    lines [s!"Applied {games} games: {entities} entities updated, " ++
      s!"{postings} postings changed"]

/-!
## Contents of an index
-/

def games (json : Bool) (entity : Entity) (games : List GameId) : String :=
  if json then
    compact (Json.sorted [
      ("type", .string entity.type.name),
      ("entity", .number entity.id.toNat),
      ("games", numbers games)])
  else if games.isEmpty then
    lines [s!"No games for {entity.label}"]
  else
    lines [s!"{entity.label}: " ++ ", ".intercalate (games.map fun game => s!"{game}")]

def liveBlocks (numBlocks : UInt32) (free : List BlockId) : Except IndexError Nat :=
  Checked.sub numBlocks.toNat free.length

def blocks (json : Bool) (numBlocks : UInt32) (live : Nat) (free : List BlockId) : String :=
  if json then
    compact (Json.sorted [
      ("num_blocks", .number numBlocks.toNat),
      ("live_blocks", .number live),
      ("deleted", numbers free)])
  else
    lines [
      s!"Blocks: {numBlocks}",
      s!"Live: {live}",
      "Deleted: [" ++ ", ".intercalate (free.map fun id => s!"{id}") ++ "]"]

def typeStatisticsJson (statistics : TypeStatistics) : Json :=
  .object [
    ("entity_type", .string statistics.type.name),
    ("known_count", .number statistics.known.toNat),
    ("non_empty", .number statistics.nonEmpty),
    ("postings", .number statistics.postings)]

def statisticsJson (statistics : Statistics) : String :=
  pretty (.object [
    ("block_capacity", .number statistics.capacity),
    ("types", .array (statistics.types.map typeStatisticsJson)),
    ("total_postings", .number statistics.totalPostings),
    ("num_blocks", .number statistics.numBlocks.toNat),
    ("deleted_blocks", .number statistics.freeBlocks.toNat),
    ("live_blocks", .number statistics.liveBlocks),
    ("longest_chain", .number statistics.longestChain)])

def statisticsText (statistics : Statistics) : String :=
  lines ([
    s!"Block capacity: {statistics.capacity}",
    s!"Blocks: {statistics.numBlocks} ({statistics.liveBlocks} live, " ++
      s!"{statistics.freeBlocks} deleted)",
    s!"Postings: {statistics.totalPostings}",
    s!"Longest chain: {statistics.longestChain} blocks"] ++
    statistics.types.map fun type =>
      s!"  {type.type.name}: {type.known} known, {type.nonEmpty} with games, " ++
        s!"{type.postings} postings")

def verified (json : Bool) (path : String) (numBlocks : UInt32) : String :=
  if json then
    compact (Json.sorted [("ok", .bool true), ("num_blocks", .number numBlocks.toNat)])
  else
    lines [s!"{path}: OK ({numBlocks} blocks)"]

def postingJson (posting : Posting) : Json :=
  Json.sorted [
    ("game_id", .number posting.game.toNat),
    ("count", .number posting.count.toNat)]

def entityJson (entity : Entity) (postings : List Posting) : Json :=
  Json.sorted [
    ("type", .string entity.type.name),
    ("entity", .number entity.id.toNat),
    ("postings", .array (postings.map postingJson))]

def exported (indented : Bool) (config : Config)
    (entities : List (Entity × List Posting)) : String :=
  let value := Json.sorted [
    ("block_capacity", .number config.capacity),
    ("entity_types", .array (config.types.map fun type => .string type.name)),
    ("entities", .array (entities.map fun (entity, postings) =>
      entityJson entity postings))]
  if indented then pretty value else compact value

end Report

end PostingIndex
