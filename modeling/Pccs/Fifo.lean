import Pccs.BigEndian
import Pccs.Store

/-!
# The bounded read-through kinds

AMD KDS, NVIDIA RIM and NVIDIA OCSP entries are bounded per kind. Beside each
entry stand two index rows: its position row holds the stamp of its last write,
and an order row, whose key starts with that stamp in big-endian, makes a
forward scan visit the entries oldest first. One more row per kind counts them.
-/
namespace Pccs.Fifo

open Text Encoding KeyValue BigEndian

inductive Kind where
  | amdKds | nvidiaRim | nvidiaOcsp
deriving DecidableEq, Repr

def Kind.name : Kind → String
  | .amdKds => Keys.amdKdsPrefix
  | .nvidiaRim => Keys.nvidiaRimPrefix
  | .nvidiaOcsp => Keys.nvidiaOcspPrefix

def boundedKinds : List Kind := [.amdKds, .nvidiaRim, .nvidiaOcsp]

def fifoOrderPrefix (kind : Kind) : List UInt8 := asBytes (Keys.fifoOrder ++ kind.name)

def fifoOrderKey (kind : Kind) (writtenAt : Nat) (entry : List UInt8) : List UInt8 :=
  fifoOrderPrefix kind ++ (toBeBytes 8 writtenAt ++ entry)

def fifoPosKey (entry : List UInt8) : List UInt8 := asBytes Keys.fifoPos ++ entry

def fifoCountKey (kind : Kind) : List UInt8 := asBytes (Keys.fifoCount ++ kind.name)

def beU64 : Row → Option Nat
  | .word n => some n
  | _ => none

def u64Max : Nat := 2 ^ 64 - 1

def saturatingAdd (a b : Nat) : Nat := min (a + b) u64Max

def saturatingMul (a b : Nat) : Nat := min (a * b) u64Max

/-- The open store: the last stamp handed out lives in memory only. -/
structure FifoStore where
  db : Database
  last : Nat
  maxEntries : Nat

def readthroughCount (db : Database) (kind : Kind) : Nat :=
  (db[fifoCountKey kind]?.bind beU64).getD 0

section Opening

/-- `fetched_at` of a record, 0 if it has none. -/
def fetchedAt : Row → Nat
  | .amdKds rec => rec.fetchedAt
  | .nvidiaRim rec => rec.fetchedAt
  | .nvidiaOcsp rec => rec.fetchedAt
  | _ => 0

def unindexedEntries (db : Database) (kind : Kind) : List (Nat × List UInt8) :=
  (scanPrefix db (asBytes kind.name)).map fun row =>
    (fetchedAt row.2, asBytes (fromUtf8Lossy row.1))

/-- The order of `(fetched_at, key)` pairs. -/
def entryLe (a b : Nat × List UInt8) : Bool :=
  a.1 < b.1 || (a.1 == b.1 && compare a.2 b.2 != .gt)

def legacyStamp (fetchedAt index : Nat) : Nat :=
  saturatingAdd (saturatingMul fetchedAt 1000000) index

def indexBatch (db : Database) (kind : Kind) : WriteBatch :=
  let entries := unindexedEntries db kind
  if db[fifoCountKey kind]?.isSome ∨ entries = [] then []
  else
    ((entries.mergeSort entryLe).zipIdx.flatMap fun ((fetched, key), i) =>
      [.put (fifoOrderKey kind (legacyStamp fetched i) key) .mark,
        .put (fifoPosKey key) (.word (legacyStamp fetched i))]) ++
    [.put (fifoCountKey kind) (.word entries.length)]

/-- A kind without a count row predates the index: index what is on disk. -/
def indexUnindexedEntries (db : Database) : Database :=
  boundedKinds.foldl (fun db kind => write db (indexBatch db kind)) db

def defaultMaxEntries : Nat := 10000

def openStore (db : Database) : FifoStore := ⟨indexUnindexedEntries db, 0, defaultMaxEntries⟩

def setReadthroughMaxEntries (s : FifoStore) (max : Nat) : FifoStore :=
  { s with maxEntries := Nat.max max 1 }

end Opening

section Operations

/-- The entry an order row is about. -/
def victimOf (kind : Kind) (orderKey : List UInt8) : Option (List UInt8) :=
  let start := (fifoOrderPrefix kind).length + 8
  if start ≤ orderKey.length then some (orderKey.drop start) else none

/-- The entries to evict, with their order rows, oldest first. The entry being
written is never one of them. -/
def evict (kind : Kind) (entry : List UInt8) :
    Nat → List (List UInt8) → List (List UInt8 × List UInt8)
  | 0, _ => []
  | _, [] => []
  | excess + 1, orderKey :: rest =>
    match victimOf kind orderKey with
    | none => evict kind entry (excess + 1) rest
    | some victim =>
      if victim = entry then evict kind entry (excess + 1) rest
      else (victim, orderKey) :: evict kind entry excess rest

/-- Stamp of the next write: the clock, but never below the last one. -/
def nextStamp (s : FifoStore) (micros : Nat) : Nat :=
  max (min micros u64Max) (saturatingAdd s.last 1)

/-- Write one record and keep its kind within the cap, in one batch. The scan
sees the database, not the batch. -/
def putBounded (s : FifoStore) (micros : Nat) (kind : Kind) (entry : List UInt8) (val : Row) :
    FifoStore :=
  let writtenAt := nextStamp s micros
  let old := s.db[fifoPosKey entry]?
  let count := readthroughCount s.db kind + if old.isSome then 0 else 1
  let superseded := (old.bind beU64).toList.map fun t => Write.delete (fifoOrderKey kind t entry)
  let evicted := evict kind entry (count - s.maxEntries)
    ((scanPrefix s.db (fifoOrderPrefix kind)).map Prod.fst)
  let batch := superseded ++
    [.put entry val, .put (fifoPosKey entry) (.word writtenAt),
      .put (fifoOrderKey kind writtenAt entry) .mark] ++
    (evicted.flatMap fun (victim, orderKey) =>
      [.delete victim, .delete (fifoPosKey victim), .delete orderKey]) ++
    [.put (fifoCountKey kind) (.word (count - evicted.length))]
  { s with last := writtenAt, db := write s.db batch }

def rowAmdKds : Row → Option AmdKdsRecord
  | .amdKds rec => some rec
  | _ => none

def rowNvidiaRim : Row → Option AmdKdsRecord
  | .nvidiaRim rec => some rec
  | _ => none

def getAmdKds (env : Env) (db : Database) (url : String) : Option AmdKdsRecord := do
  let rec ← db[Keys.amdKds env url]?.bind rowAmdKds
  if rec.url ≠ url then none else some rec

def getNvidiaRim (env : Env) (db : Database) (url : String) : Option AmdKdsRecord := do
  let rec ← db[Keys.nvidiaRim env url]?.bind rowNvidiaRim
  if rec.url ≠ url then none else some rec

def putAmdKds (env : Env) (s : FifoStore) (micros : Nat) (rec : AmdKdsRecord) : FifoStore :=
  putBounded s micros .amdKds (Keys.amdKds env rec.url) (.amdKds rec)

def putNvidiaRim (env : Env) (s : FifoStore) (micros : Nat) (rec : AmdKdsRecord) : FifoStore :=
  putBounded s micros .nvidiaRim (Keys.nvidiaRim env rec.url) (.nvidiaRim rec)

def putNvidiaOcsp (s : FifoStore) (micros : Nat) (rec : NvidiaOcspRecord) : FifoStore :=
  putBounded s micros .nvidiaOcsp (Keys.nvidiaOcsp rec.cacheKey) (.nvidiaOcsp rec)

/-- The removal of the index rows of an entry, and whether it had any. -/
def unindex (db : Database) (kind : Kind) (entry : List UInt8) : WriteBatch × Bool :=
  match db[fifoPosKey entry]? with
  | none => ([], false)
  | some pos =>
    ((beU64 pos).toList.map (fun t => .delete (fifoOrderKey kind t entry)) ++
      [.delete (fifoPosKey entry)], true)

def kindOf (key : List UInt8) : Option Kind :=
  boundedKinds.find? fun kind => (asBytes kind.name).isPrefixOf key

def deleteKey (s : FifoStore) (key : String) : FifoStore :=
  match kindOf (asBytes key) with
  | none => { s with db := write s.db [.delete (asBytes key)] }
  | some kind =>
    let (rows, indexed) := unindex s.db kind (asBytes key)
    let count := if indexed then
      [.put (fifoCountKey kind) (.word (readthroughCount s.db kind - 1))] else []
    { s with db := write s.db (.delete (asBytes key) :: rows ++ count) }

/-- Delete the entries of a kind that a predicate on their rows flags; a row
that does not parse is not flagged. -/
def sweepPrefix (s : FifoStore) (kind : Kind) (expired : Row → Bool) : FifoStore :=
  let swept := ((scanPrefix s.db (asBytes kind.name)).filter fun row => expired row.2).map Prod.fst
  let unindexed := swept.countP fun key => (unindex s.db kind key).2
  let count := if unindexed > 0 then
    [.put (fifoCountKey kind) (.word (readthroughCount s.db kind - unindexed))] else []
  if swept = [] then s
  else { s with
    db := write s.db ((swept.flatMap fun key => .delete key :: (unindex s.db kind key).1) ++ count) }

end Operations

end Pccs.Fifo
