import PostingIndex.Entity
import PostingIndex.Posting

/-!
# Faults

Every operation that can fail says why by a cause.  The wording of a cause is
kept apart from it, in the `message` functions.  An operation may also be cut
short by a check of the machine: it then aborts, and the process ends with it.

## Contents

Causes for chains, configurations, the directory and aborts, the errors that
operations report, and their wording.
-/

namespace PostingIndex

/-- What is wrong with a block of a chain, or with the set of all chains. -/
inductive ChainFault where
  | linkBeyond (limit : Nat)
  | cycle
  | emptyBlock
  | overfull (length capacity : Nat)
  | zeroCount (game : GameId)
  | outOfOrder (game previous : GameId)
  | beyondArena
  | beyondFile
  | pageOverfull (length capacity : Nat)
  | arenaTooLarge
  | freeNeverAllocated
  | freeInChain (owner : Entity)
  | sharedBlock (owner : Entity)
  | unreachable
deriving DecidableEq

namespace ChainFault

def message : ChainFault -> String
  | linkBeyond limit => s!"link beyond {limit} blocks"
  | cycle => "cycle in chain"
  | emptyBlock => "empty block linked into chain"
  | overfull length capacity =>
      s!"{length} postings exceed capacity {capacity}"
  | zeroCount game => s!"zero count for game {game}"
  | outOfOrder game previous => s!"game {game} does not follow game {previous}"
  | beyondArena => "block id beyond arena"
  | beyondFile => "block id beyond file"
  | pageOverfull length capacity =>
      s!"page claims {length} postings, capacity {capacity}"
  | arenaTooLarge => "arena larger than allocated block range"
  | freeNeverAllocated => "deleted id never allocated"
  | freeInChain _ => "chain references deleted block"
  | sharedBlock _ => "block shared by two chains"
  | unreachable => "live block not reachable from any entity"

end ChainFault

inductive ConfigFault where
  | noTypes
  | repeatedType (entityType : EntityType)
  | capacityOutOfRange (capacity : Nat)
deriving DecidableEq

namespace ConfigFault

def message : ConfigFault -> String
  | noTypes => "at least one entity type is required"
  | repeatedType entityType => s!"entity type {entityType.name} listed twice"
  | capacityOutOfRange capacity => s!"block capacity {capacity} outside 1..=65535"

end ConfigFault

inductive FileFault where
  | notFound
  | isFolder
  | notFolder
  | nameTooLong
  | zeroInName
  | notMappable
  | notText
deriving DecidableEq

namespace FileFault

def message : FileFault -> String
  | notFound => "No such file or directory (os error 2)"
  | isFolder => "Is a directory (os error 21)"
  | notFolder => "Not a directory (os error 20)"
  | nameTooLong => "File name too long (os error 36)"
  | zeroInName => "file name contained an unexpected NUL byte"
  | notMappable => "No such device (os error 19)"
  | notText => "stream did not contain valid UTF-8"

end FileFault

/-- Which check of the machine ended the process. -/
inductive Abort where
  | addOverflow
  | subOverflow
  | unallocated (block : BlockId)
  | memoryRefused (bytes : Nat)
deriving DecidableEq

namespace Abort

def message : Abort -> String
  | addOverflow => "attempt to add with overflow"
  | subOverflow => "attempt to subtract with overflow"
  | unallocated block => s!"freeing unallocated block {block}"
  | memoryRefused bytes => s!"memory allocation of {bytes} bytes failed"

end Abort

inductive IndexError where
  | entityOutOfRange (entity : Entity) (known : UInt32)
  | unknownType (entityType : EntityType)
  | corruptChain (block : BlockId) (fault : ChainFault)
  | invalidConfig (fault : ConfigFault)
  | configSyntax
  | changesSyntax
  | invalidMagic
  | unsupportedVersion (version : UInt32)
  | truncated
  | corruptData (offset : Nat)
  | checksumMismatch (block : BlockId)
  | compression
  | file (fault : FileFault)
  | aborted (cause : Abort)
deriving DecidableEq

namespace IndexError

/-- An error that an operation returns, as opposed to an abort. -/
def Returned : IndexError -> Prop
  | aborted _ => False
  | _ => True

instance decidableReturned : (error : IndexError) -> Decidable error.Returned
  | aborted _ => .isFalse id
  | entityOutOfRange .. | unknownType .. | corruptChain .. | invalidConfig .. | configSyntax
  | changesSyntax | invalidMagic | unsupportedVersion .. | truncated | corruptData ..
  | checksumMismatch .. | compression | file .. => .isTrue trivial

def message : IndexError -> String
  | entityOutOfRange entity known =>
      s!"Entity id {entity.id} out of range for {entity.type.name}: known extent is {known}"
  | unknownType entityType =>
      s!"Entity type {entityType.name} is not configured for this index"
  | corruptChain block fault => s!"Corrupt chain at block {block}: {fault.message}"
  | invalidConfig fault => s!"Invalid configuration: {fault.message}"
  | configSyntax => "Config parse error: not a valid configuration document"
  | changesSyntax => "Invalid JSON input: not a valid list of game changes"
  | invalidMagic => "Invalid magic bytes in file header"
  | unsupportedVersion version => s!"Unsupported format version: {version}"
  | truncated => "File is empty or truncated"
  | corruptData offset => s!"Corrupt data at offset {offset}"
  | checksumMismatch block => s!"Checksum mismatch in block {block}"
  | compression => "Compression error: not a valid compressed section"
  | file fault => s!"IO error: {fault.message}"
  | aborted cause => cause.message

end IndexError

end PostingIndex
