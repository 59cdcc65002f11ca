import PostingIndex.Fault

/-!
# Notices

Operations keep a record of what they did.  A notice is one entry of it, and a
failed operation leaves the notices that its error calls for.

## Contents

Notices, their levels and their wording, and the notices of an error.
-/

namespace PostingIndex

/-- What one update did to the chain of an entity. -/
structure EntityUpdate where
  entity : Entity
  changes : Nat
  written : Nat
  allocated : Nat
  freed : Nat
deriving DecidableEq

inductive Level where
  | debug
  | info
  | warn
deriving DecidableEq

namespace Level

def name : Level -> String
  | debug => "DEBUG"
  | info => "INFO"
  | warn => "WARN"

end Level

inductive Notice where
  | entityUpdated (update : EntityUpdate)
  | batchApplied (games entities : Nat)
  | loaded (path : String) (blocks free : Nat)
  | wrote (path : String) (blocks free : Nat)
  | chainCorrupt (error : IndexError)
  | pageDamaged (block : BlockId)
  | chainRejected (owner : Entity)
deriving DecidableEq

namespace Notice

def level : Notice -> Level
  | entityUpdated _ => .debug
  | batchApplied _ _ => .debug
  | loaded _ _ _ => .info
  | wrote _ _ _ => .info
  | chainCorrupt _ => .warn
  | pageDamaged _ => .warn
  | chainRejected _ => .warn

def message : Notice -> String
  | entityUpdated update =>
      s!"{update.entity.label}: {update.changes} changes, " ++
      s!"{update.written} blocks written, " ++
      s!"{update.allocated} allocated, {update.freed} freed"
  | batchApplied games entities =>
      s!"Applied {games} game changes to {entities} entities"
  | loaded path blocks free => s!"Loaded {path} ({blocks} blocks, {free} deleted)"
  | wrote path blocks free => s!"Wrote {path} ({blocks} blocks, {free} deleted)"
  | chainCorrupt error => error.message
  | pageDamaged block => s!"Checksum mismatch in block {block}"
  | chainRejected owner => s!"{owner.label} chain fails verification"

def line (notice : Notice) : String :=
  s!"{notice.level.name} {notice.message}"

end Notice

namespace IndexError

/--
The notices that go with an error.  Following a chain records what it finds
wrong itself; a block that cannot be loaded is recorded only when its checksum
fails; checking all chains records the chain that conflicts with another.
-/
def notices (error : IndexError) : List Notice :=
  match error with
  | corruptChain _ (.linkBeyond _) => [.chainCorrupt error]
  | corruptChain _ .cycle => [.chainCorrupt error]
  | corruptChain _ .emptyBlock => [.chainCorrupt error]
  | corruptChain _ (.overfull _ _) => [.chainCorrupt error]
  | corruptChain _ (.zeroCount _) => [.chainCorrupt error]
  | corruptChain _ (.outOfOrder _ _) => [.chainCorrupt error]
  | corruptChain _ (.freeInChain owner) => [.chainRejected owner]
  | corruptChain _ (.sharedBlock owner) => [.chainRejected owner]
  | checksumMismatch block => [.pageDamaged block]
  | _ => []

end IndexError

end PostingIndex
