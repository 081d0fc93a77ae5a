import Pccs.OcspShape
import Pccs.Fifo
import Pccs.Runs
import Mathlib.Logic.Function.Basic

/-!
# Runs of the OCSP proxy

A call looks its key up, waits for the lock of the key, looks at what a sibling
has just got, looks the key up again, and asks the upstream only then. A 200
answer that may be kept is stored before it is relayed. Calls interleave at
their awaits and may be dropped there, other writers share the store, and the
process may restart. The log of 200 answers is there for the statements only.
-/
namespace Pccs.Ocsp

open Text Fallible PccsError Fifo Runs

def nvidiaOcspAccessFailure : PccsError :=
  ⟨502, "Unable to retrieve the OCSP response from the NVIDIA OCSP service."⟩

structure Config where
  mode : CacheMode
  nvidiaOcspUri : String
  maxTtlSecs : Nat
  defaultTtlSecs : Nat

structure AmdKdsResponse where
  status : Nat
  body : List UInt8
  contentType : Option String
  contentDisposition : Option String
  retryAfter : Option String
deriving DecidableEq

inductive RecentOutcome where
  | err (e : PccsError)
  | response (r : AmdKdsResponse)

/-- What the responder sends: status, the two headers that matter, and body. -/
structure Upstream where
  status : Nat
  contentType : Option String
  retryAfter : Option String
  body : List UInt8

section Store

def getNvidiaOcsp (s : FifoStore) (cacheKey : String) : Option NvidiaOcspRecord :=
  match s.db[Keys.nvidiaOcsp cacheKey]? with
  | some (.nvidiaOcsp rec) => if rec.cacheKey = cacheKey then some rec else none
  | _ => none

def storeKey (cacheKey : String) : String := Keys.nvidiaOcspPrefix ++ cacheKey

def served (rec : NvidiaOcspRecord) : AmdKdsResponse := ⟨200, rec.body, rec.contentType, none, none⟩

/-- The lookup before the lock: the reply, if there is one already, and the
store. LAZY leaves an expired record to the lookup under the lock. -/
def lookup (mode : CacheMode) (s : FifoStore) (cacheKey : String) (now : Nat) :
    Option (Except PccsError AmdKdsResponse) × FifoStore :=
  let miss := if mode = .lazy then none else some (.error noCacheData)
  match getNvidiaOcsp s cacheKey with
  | some rec =>
    if rec.expiresAt > now then (some (.ok (served rec)), s)
    else (miss, if mode = .lazy then s else deleteKey s (storeKey cacheKey))
  | none => (miss, s)

/-- The lookup under the lock. -/
def lookupLocked (s : FifoStore) (cacheKey : String) (now : Nat) :
    Option AmdKdsResponse × FifoStore :=
  match getNvidiaOcsp s cacheKey with
  | some rec =>
    if rec.expiresAt > now then (some (served rec), s)
    else (none, deleteKey s (storeKey cacheKey))
  | none => (none, s)

end Store

/-- One POST to the responder. No configured host, 1xx and 3xx count as an
access failure; every other status is relayed. -/
def postNvidiaOcsp (uri : String) (upstream : Option Upstream) :
    Except PccsError AmdKdsResponse := do
  reject (uri = "") nvidiaOcspAccessFailure
  let answer ← require upstream nvidiaOcspAccessFailure
  reject ((100 ≤ answer.status ∧ answer.status < 200) ∨
    (300 ≤ answer.status ∧ answer.status < 400)) nvidiaOcspAccessFailure
  return ⟨answer.status, answer.body,
    some (answer.contentType.getD "application/ocsp-response"), none, answer.retryAfter⟩

/-- What is left to do with a relayed answer: the reply and the store. -/
def settle (chrono : Chrono) (cfg : Config) (s : FifoStore) (cacheKey : String)
    (resp : AmdKdsResponse) (now fetchedAt micros : Nat) :
    Except PccsError AmdKdsResponse × FifoStore :=
  if resp.status ≠ 200 then (.ok resp, s)
  else
    match tryI64 now with
    | none => (.error internalError, s)
    | some now =>
      match responseCacheExpiry chrono resp.body now cfg.maxTtlSecs cfg.defaultTtlSecs with
      | .error _ => (.ok resp, s)
      | .ok expiresAt =>
        (.ok { resp with retryAfter := none },
          putNvidiaOcsp s micros ⟨cacheKey, resp.body, resp.contentType, fetchedAt, expiresAt⟩)

/-- Where a call awaits: the lock of its key, the map of recent outcomes twice,
the upstream. -/
inductive Pc where
  | lock | failure | non200 | fetch
deriving DecidableEq

structure Call where
  request : List UInt8
  cacheKey : String
  pc : Pc

/-- A 200 answer of the upstream, and the clock when it was looked at. -/
structure Fill where
  request : List UInt8
  body : List UInt8
  time : Nat

structure State where
  store : FifoStore
  calls : Nat → Option Call
  locks : String → Option Nat
  recent : String → Option RecentOutcome
  log : List Fill

def State.set (s : State) (i : Nat) (call : Call) : State :=
  { s with calls := Function.update s.calls i (some call) }

/-- The call is gone, and its lock with it. -/
def State.finish (s : State) (i : Nat) : State :=
  { s with
    calls := Function.update s.calls i none
    locks := fun key => if s.locks key = some i then none else s.locks key }

/-- A store with nothing else around it, as a process finds it. -/
def boot (db : Database) (log : List Fill) : State :=
  ⟨openStore db, fun _ => none, fun _ => none, fun _ => none, log⟩

/-- One poll of one call up to its next await, or something around it. -/
inductive Step (env : Env) (chrono : Chrono) (cfg : Config) (s : State) : State → Prop
  | hit (i : Nat) (request : List UInt8) (cacheKey : String) (now : Nat)
      (reply : Except PccsError AmdKdsResponse) (hi : s.calls i = none)
      (hp : parseRequest env request = .ok cacheKey)
      (hl : (lookup cfg.mode s.store cacheKey now).1 = some reply) :
      Step env chrono cfg s { s with store := (lookup cfg.mode s.store cacheKey now).2 }
  | miss (i : Nat) (request : List UInt8) (cacheKey : String) (now : Nat) (hi : s.calls i = none)
      (hp : parseRequest env request = .ok cacheKey)
      (hl : (lookup cfg.mode s.store cacheKey now).1 = none) :
      Step env chrono cfg s { s.set i ⟨request, cacheKey, .lock⟩ with
        store := (lookup cfg.mode s.store cacheKey now).2 }
  | acquire (i : Nat) (request : List UInt8) (cacheKey : String)
      (hi : s.calls i = some ⟨request, cacheKey, .lock⟩) (hl : s.locks cacheKey = none) :
      Step env chrono cfg s { s.set i ⟨request, cacheKey, .failure⟩ with
        locks := Function.update s.locks cacheKey (some i) }
  | recentFailure (i : Nat) (request : List UInt8) (cacheKey : String) (e : PccsError)
      (hi : s.calls i = some ⟨request, cacheKey, .failure⟩)
      (hr : s.recent cacheKey = some (.err e)) : Step env chrono cfg s (s.finish i)
  | noFailure (i : Nat) (request : List UInt8) (cacheKey : String)
      (hi : s.calls i = some ⟨request, cacheKey, .failure⟩)
      (hr : ∀ e, s.recent cacheKey ≠ some (.err e)) :
      Step env chrono cfg s (s.set i ⟨request, cacheKey, .non200⟩)
  | recentNon200 (i : Nat) (request : List UInt8) (cacheKey : String) (r : AmdKdsResponse)
      (hi : s.calls i = some ⟨request, cacheKey, .non200⟩)
      (hr : s.recent cacheKey = some (.response r)) : Step env chrono cfg s (s.finish i)
  | hitLocked (i : Nat) (request : List UInt8) (cacheKey : String) (now : Nat)
      (reply : AmdKdsResponse) (hi : s.calls i = some ⟨request, cacheKey, .non200⟩)
      (hr : ∀ r, s.recent cacheKey ≠ some (.response r))
      (hl : (lookupLocked s.store cacheKey now).1 = some reply) : Step env chrono cfg s (s.finish i)
  | missLocked (i : Nat) (request : List UInt8) (cacheKey : String) (now : Nat)
      (hi : s.calls i = some ⟨request, cacheKey, .non200⟩)
      (hr : ∀ r, s.recent cacheKey ≠ some (.response r))
      (hl : (lookupLocked s.store cacheKey now).1 = none) :
      Step env chrono cfg s { s.set i ⟨request, cacheKey, .fetch⟩ with
        store := (lookupLocked s.store cacheKey now).2 }
  | refused (i : Nat) (request : List UInt8) (cacheKey : String) (upstream : Option Upstream)
      (e : PccsError) (hi : s.calls i = some ⟨request, cacheKey, .fetch⟩)
      (hu : postNvidiaOcsp cfg.nvidiaOcspUri upstream = .error e) :
      Step env chrono cfg s { s.finish i with
        recent := Function.update s.recent cacheKey (some (.err e)) }
  | relayed (i : Nat) (request : List UInt8) (cacheKey : String) (upstream : Option Upstream)
      (resp : AmdKdsResponse) (hi : s.calls i = some ⟨request, cacheKey, .fetch⟩)
      (hu : postNvidiaOcsp cfg.nvidiaOcspUri upstream = .ok resp) (hs : resp.status ≠ 200) :
      Step env chrono cfg s { s.finish i with
        recent := Function.update s.recent cacheKey (some (.response resp)) }
  | answered (i : Nat) (request : List UInt8) (cacheKey : String) (upstream : Option Upstream)
      (resp : AmdKdsResponse) (now fetchedAt micros : Nat)
      (hi : s.calls i = some ⟨request, cacheKey, .fetch⟩)
      (hu : postNvidiaOcsp cfg.nvidiaOcspUri upstream = .ok resp) (hs : resp.status = 200) :
      Step env chrono cfg s { s.finish i with
        store := (settle chrono cfg s.store cacheKey resp now fetchedAt micros).2
        log := ⟨request, resp.body, now⟩ :: s.log }
  | cancel (i : Nat) : Step env chrono cfg s (s.finish i)
  | forget (cacheKey : String) :
      Step env chrono cfg s { s with recent := Function.update s.recent cacheKey none }
  | sweep (kind : Kind) (expired : Row → Bool) :
      Step env chrono cfg s { s with store := sweepPrefix s.store kind expired }
  | delete (key : String) : Step env chrono cfg s { s with store := deleteKey s.store key }
  | setMax (max : Nat) :
      Step env chrono cfg s { s with store := setReadthroughMaxEntries s.store max }
  | putAmdKds (micros : Nat) (rec : AmdKdsRecord) :
      Step env chrono cfg s { s with store := Fifo.putAmdKds env s.store micros rec }
  | putNvidiaRim (micros : Nat) (rec : AmdKdsRecord) :
      Step env chrono cfg s { s with store := Fifo.putNvidiaRim env s.store micros rec }
  | restart : Step env chrono cfg s (boot s.store.db s.log)

section Rows

/-- Every OCSP row of the second database is a row of the first. -/
def OcspRowsOf (db db' : Database) : Prop :=
  ∀ (k : List UInt8) rec, db'[k]? = some (.nvidiaOcsp rec) → db[k]? = some (.nvidiaOcsp rec)

theorem ocspRowsOf_write {db : Database} {batch : WriteBatch}
    (h : ∀ k rec, .put k (.nvidiaOcsp rec) ∉ batch) : OcspRowsOf db (KeyValue.write db batch) :=
  fun k rec hrow => (KeyValue.get_write_some hrow).resolve_right (h k rec)

theorem unindex_puts (db : Database) (kind : Kind) (entry k : List UInt8) (row : Row) :
    .put k row ∉ (unindex db kind entry).1 := by
  unfold unindex
  split <;> simp

theorem putBounded_rows {s : FifoStore} {micros : Nat} {kind : Kind} {entry : List UInt8} {val : Row}
    {k : List UInt8} {rec : NvidiaOcspRecord}
    (h : (putBounded s micros kind entry val).db[k]? = some (.nvidiaOcsp rec)) :
    s.db[k]? = some (.nvidiaOcsp rec) ∨ val = .nvidiaOcsp rec := by
  refine (KeyValue.get_write_some h).imp_right fun hput => ?_
  have hval : k = entry ∧ .nvidiaOcsp rec = val := by simpa using hput
  exact hval.2.symm

theorem deleteKey_rows (s : FifoStore) (key : String) : OcspRowsOf s.db (deleteKey s key).db := by
  unfold deleteKey
  split
  · exact ocspRowsOf_write (by simp)
  · refine ocspRowsOf_write fun k rec hput => ?_
    have hrows := unindex_puts s.db
    grind

theorem sweepPrefix_rows (s : FifoStore) (kind : Kind) (expired : Row → Bool) :
    OcspRowsOf s.db (sweepPrefix s kind expired).db := by
  unfold sweepPrefix
  simp only
  split
  · exact fun _ _ h => h
  · refine ocspRowsOf_write fun k rec hput => ?_
    have hrows := unindex_puts s.db
    grind

theorem indexBatch_puts (db : Database) (kind : Kind) (k : List UInt8) (rec : NvidiaOcspRecord) :
    .put k (.nvidiaOcsp rec) ∉ indexBatch db kind := by
  unfold indexBatch
  simp only
  split
  · simp
  · simp

theorem openStore_rows (db : Database) : OcspRowsOf db (openStore db).db := by
  have hone : ∀ db kind, OcspRowsOf db (KeyValue.write db (indexBatch db kind)) :=
    fun db kind => ocspRowsOf_write (indexBatch_puts db kind)
  exact fun k rec h => hone _ .amdKds k rec (hone _ .nvidiaRim k rec (hone _ .nvidiaOcsp k rec h))

end Rows

section Invariant

variable {env : Env} {chrono : Chrono} {cfg : Config}

/-- The record is what the log says of a 200 answer to a request of its key. -/
def Filled (env : Env) (chrono : Chrono) (cfg : Config) (log : List Fill)
    (rec : NvidiaOcspRecord) : Prop :=
  ∃ fill ∈ log, parseRequest env fill.request = .ok rec.cacheKey ∧ fill.body = rec.body ∧
    responseCacheExpiry chrono fill.body fill.time cfg.maxTtlSecs cfg.defaultTtlSecs =
      .ok rec.expiresAt

structure Inv (env : Env) (chrono : Chrono) (cfg : Config) (s : State) : Prop where
  calls : ∀ i call, s.calls i = some call → parseRequest env call.request = .ok call.cacheKey
  rows : ∀ (k : List UInt8) rec, s.store.db[k]? = some (.nvidiaOcsp rec) →
    Filled env chrono cfg s.log rec

theorem lookup_rows (mode : CacheMode) (s : FifoStore) (cacheKey : String) (now : Nat) :
    OcspRowsOf s.db (lookup mode s cacheKey now).2.db := by
  unfold lookup
  simp only
  split
  · split
    · exact fun _ _ h => h
    · split
      · exact fun _ _ h => h
      · exact deleteKey_rows s _
  · exact fun _ _ h => h

theorem lookupLocked_rows (s : FifoStore) (cacheKey : String) (now : Nat) :
    OcspRowsOf s.db (lookupLocked s cacheKey now).2.db := by
  unfold lookupLocked
  split
  · split
    · exact fun _ _ h => h
    · exact deleteKey_rows s _
  · exact fun _ _ h => h

theorem settle_rows {s : FifoStore} {cacheKey : String} {resp : AmdKdsResponse}
    {now fetchedAt micros : Nat} {k : List UInt8} {rec : NvidiaOcspRecord}
    (h : (settle chrono cfg s cacheKey resp now fetchedAt micros).2.db[k]? =
      some (.nvidiaOcsp rec)) :
    s.db[k]? = some (.nvidiaOcsp rec) ∨ (rec.cacheKey = cacheKey ∧ rec.body = resp.body ∧
      responseCacheExpiry chrono rec.body now cfg.maxTtlSecs cfg.defaultTtlSecs =
        .ok rec.expiresAt) := by
  unfold settle at h
  split at h
  · exact .inl h
  · split at h
    · exact .inl h
    · rename_i now' hnow
      obtain ⟨_, rfl⟩ := tryI64_eq_some hnow
      split at h
      · exact .inl h
      · rename_i expiresAt hexpiry
        refine (putBounded_rows h).imp_right fun hrec => ?_
        cases hrec
        exact ⟨rfl, rfl, hexpiry⟩

/-- A step that brings no OCSP row and no call keeps the invariant. -/
theorem Inv.shrink {s s' : State} (h : Inv env chrono cfg s) (hlog : s'.log = s.log)
    (hrows : OcspRowsOf s.store.db s'.store.db)
    (hcalls : ∀ i call, s'.calls i = some call →
      parseRequest env call.request = .ok call.cacheKey) : Inv env chrono cfg s' where
  calls := hcalls
  rows k rec hrow := hlog ▸ h.rows k rec (hrows k rec hrow)

theorem set_calls {s : State} (h : Inv env chrono cfg s) {j : Nat} {new : Call}
    (hnew : parseRequest env new.request = .ok new.cacheKey) :
    ∀ i call, (s.set j new).calls i = some call →
      parseRequest env call.request = .ok call.cacheKey := by
  intro i call hi
  by_cases hij : i = j
  · subst hij
    simp only [State.set, Function.update_self] at hi
    cases hi
    exact hnew
  · simp only [State.set, Function.update_of_ne hij] at hi
    exact h.calls i call hi

theorem finish_calls {s : State} (h : Inv env chrono cfg s) (j : Nat) :
    ∀ i call, (s.finish j).calls i = some call →
      parseRequest env call.request = .ok call.cacheKey := by
  intro i call hi
  by_cases hij : i = j
  · simp [State.finish, hij] at hi
  · simp only [State.finish, Function.update_of_ne hij] at hi
    exact h.calls i call hi

theorem inv_boot : Inv env chrono cfg (boot ∅ []) where
  calls := by simp [boot]
  rows k rec hrow := by
    have hnone := openStore_rows ∅ k rec hrow
    simp at hnone

theorem inv_step {s s' : State} (h : Inv env chrono cfg s) (hstep : Step env chrono cfg s s') :
    Inv env chrono cfg s' := by
  cases hstep with
  | hit i request cacheKey now => exact h.shrink rfl (lookup_rows _ _ _ now) h.calls
  | miss i request cacheKey now hi hp =>
    exact h.shrink rfl (lookup_rows _ _ _ now) (set_calls h hp)
  | acquire i request cacheKey hi =>
    have hp := h.calls i _ hi
    exact h.shrink rfl (fun _ _ hr => hr) (set_calls h hp)
  | recentFailure i => exact h.shrink rfl (fun _ _ hr => hr) (finish_calls h i)
  | noFailure i request cacheKey hi =>
    have hp := h.calls i _ hi
    exact h.shrink rfl (fun _ _ hr => hr) (set_calls h hp)
  | recentNon200 i => exact h.shrink rfl (fun _ _ hr => hr) (finish_calls h i)
  | hitLocked i => exact h.shrink rfl (fun _ _ hr => hr) (finish_calls h i)
  | missLocked i request cacheKey now hi =>
    have hp := h.calls i _ hi
    exact h.shrink rfl (lookupLocked_rows _ _ now) (set_calls h hp)
  | refused i => exact h.shrink rfl (fun _ _ hr => hr) (finish_calls h i)
  | relayed i => exact h.shrink rfl (fun _ _ hr => hr) (finish_calls h i)
  | answered i request cacheKey upstream resp now fetchedAt micros hi =>
    refine ⟨finish_calls h i, fun k rec hrow => ?_⟩
    obtain hold | ⟨hkey, hbody, hexpiry⟩ := settle_rows hrow
    · obtain ⟨fill, hfill, hfilled⟩ := h.rows k rec hold
      exact ⟨fill, List.mem_cons_of_mem _ hfill, hfilled⟩
    · exact ⟨_, List.mem_cons_self, hkey ▸ h.calls i _ hi, hbody.symm, hbody ▸ hexpiry⟩
  | cancel i => exact h.shrink rfl (fun _ _ hr => hr) (finish_calls h i)
  | forget => exact h.shrink rfl (fun _ _ hr => hr) h.calls
  | sweep kind expired => exact h.shrink rfl (sweepPrefix_rows _ kind expired) h.calls
  | delete key => exact h.shrink rfl (deleteKey_rows _ key) h.calls
  | setMax => exact h.shrink rfl (fun _ _ hr => hr) h.calls
  | putAmdKds micros rec =>
    refine h.shrink rfl (fun k rec' hrow => ?_) h.calls
    exact (putBounded_rows hrow).resolve_right (by simp)
  | putNvidiaRim micros rec =>
    refine h.shrink rfl (fun k rec' hrow => ?_) h.calls
    exact (putBounded_rows hrow).resolve_right (by simp)
  | restart => exact h.shrink rfl (openStore_rows _) (by simp [boot])

end Invariant

section Served

variable {env : Env} {chrono : Chrono} {cfg : Config}

theorem getNvidiaOcsp_eq_some {s : FifoStore} {cacheKey : String} {rec : NvidiaOcspRecord}
    (h : getNvidiaOcsp s cacheKey = some rec) :
    s.db[Keys.nvidiaOcsp cacheKey]? = some (.nvidiaOcsp rec) ∧ rec.cacheKey = cacheKey := by
  unfold getNvidiaOcsp at h
  split at h
  · split at h
    · cases h
      exact ⟨‹_›, ‹_›⟩
    · cases h
  · cases h

/-- The lookup, before the lock or under it, returns this response. -/
def Serves (mode : CacheMode) (s : FifoStore) (cacheKey : String) (now : Nat)
    (resp : AmdKdsResponse) : Prop :=
  (lookup mode s cacheKey now).1 = some (.ok resp) ∨ (lookupLocked s cacheKey now).1 = some resp

theorem serves_record {mode : CacheMode} {s : FifoStore} {cacheKey : String} {now : Nat}
    {resp : AmdKdsResponse} (h : Serves mode s cacheKey now resp) :
    ∃ rec, getNvidiaOcsp s cacheKey = some rec ∧ now < rec.expiresAt ∧ resp = served rec := by
  cases hget : getNvidiaOcsp s cacheKey with
  | none =>
    obtain h | h := h
    · simp only [lookup, hget] at h
      split at h <;> cases h
    · simp [lookupLocked, hget] at h
  | some rec =>
    by_cases hnow : now < rec.expiresAt
    · refine ⟨rec, rfl, hnow, ?_⟩
      obtain h | h := h
      · simpa [lookup, hget, hnow] using h.symm
      · simpa [lookupLocked, hget, hnow] using h.symm
    · obtain h | h := h
      · simp only [lookup, hget, gt_iff_lt, if_neg hnow] at h
        split at h <;> cases h
      · simp [lookupLocked, hget, hnow] at h

theorem parseRequest_inj (hsha : Function.Injective env.sha256Hex) {r r' : List UInt8} {key : String}
    (h : parseRequest env r = .ok key) (h' : parseRequest env r' = .ok key) :
    requestList r = requestList r' := by
  unfold parseRequest at h h'
  cases hr : requestList r with
  | error e => simp [hr, Except.map] at h
  | ok list =>
    cases hr' : requestList r' with
    | error e => simp [hr', Except.map] at h'
    | ok list' =>
      simp only [hr, hr', Except.map, Except.ok.injEq] at h h'
      rw [hsha (h.trans h'.symm)]

/-- A digest that is the plain hex text. -/
def hexEnv : Env := { Keys.plainEnv with sha256Hex := Encoding.hexEncode }

/-- A time parser that knows one instant. -/
def noon : Chrono where
  parseNaive text format :=
    if text = "20260716120000Z" ∧ format = "%Y%m%d%H%M%SZ" then some 1784203200 else none
  parseZoned _ _ := none

def lazyCfg : Config := ⟨.lazy, "http://ocsp", 3600, 600⟩

/-- A request for one certificate. -/
def oneRequest : List UInt8 := [0x30, 0x08, 0x30, 0x06, 0x30, 0x04, 0x30, 0x02, 0x30, 0x00]

/-- One good SingleResponse of noon, without nextUpdate. -/
def goodAtNoon : List UInt8 :=
  [0x30, 0x39, 0x0a, 0x01, 0x00, 0xa0, 0x34, 0x30, 0x32, 0x06, 0x09, 0x2b, 0x06, 0x01, 0x05, 0x05,
    0x07, 0x30, 0x01, 0x01, 0x04, 0x25, 0x30, 0x23, 0x30, 0x1d, 0x82, 0x00, 0x18, 0x00, 0x30, 0x17,
    0x30, 0x15, 0x30, 0x00, 0x80, 0x00, 0x18, 0x0f, 0x32, 0x30, 0x32, 0x36, 0x30, 0x37, 0x31, 0x36,
    0x31, 0x32, 0x30, 0x30, 0x30, 0x30, 0x5a, 0x30, 0x00, 0x03, 0x00]

def oneKey : String := "300430023000"

def relayedAtNoon : AmdKdsResponse :=
  ⟨200, goodAtNoon, some "application/ocsp-response", none, none⟩

/-- One call on an empty store, at some await. -/
def calling (pc : Pc) (locks : String → Option Nat) : State :=
  { (boot ∅ []).set 0 ⟨oneRequest, oneKey, pc⟩ with locks := locks }

def oneLock : String → Option Nat := Function.update (fun _ => none) oneKey (some 0)

/-- The call has got its answer at noon. -/
def filled : State :=
  { (calling .fetch oneLock).finish 0 with
    store := (settle noon lazyCfg (openStore ∅) oneKey relayedAtNoon 1784203200 1784203200 1).2
    log := [⟨oneRequest, goodAtNoon, 1784203200⟩] }

theorem calling_set (pc pc' : Pc) (locks : String → Option Nat) :
    (calling pc locks).set 0 ⟨oneRequest, oneKey, pc'⟩ = calling pc' locks := by
  simp [calling, State.set]

theorem parseRequest_oneRequest : parseRequest hexEnv oneRequest = .ok oneKey := rfl

theorem getNvidiaOcsp_empty : getNvidiaOcsp (openStore ∅) oneKey = none := by
  cases h : getNvidiaOcsp (openStore ∅) oneKey with
  | none => rfl
  | some rec =>
    have hrow := openStore_rows ∅ _ _ (getNvidiaOcsp_eq_some h).1
    simp at hrow

theorem filled_reachable : Reachable (· = boot ∅ []) (Step hexEnv noon lazyCfg) filled := by
  have hlookup : lookup .lazy (openStore ∅) oneKey 0 = (none, openStore ∅) := by
    simp [lookup, getNvidiaOcsp_empty]
  have hlocked : lookupLocked (openStore ∅) oneKey 0 = (none, openStore ∅) := by
    simp [lookupLocked, getNvidiaOcsp_empty]
  have hmiss : Step hexEnv noon lazyCfg (boot ∅ []) (calling .lock fun _ => none) := by
    have hstep : Step hexEnv noon lazyCfg (boot ∅ []) _ :=
      .miss 0 oneRequest oneKey 0 rfl parseRequest_oneRequest (congrArg Prod.fst hlookup)
    rwa [show (lookup lazyCfg.mode (boot ∅ []).store oneKey 0).2 = openStore ∅ from
      congrArg Prod.snd hlookup] at hstep
  have hacquire : Step hexEnv noon lazyCfg (calling .lock fun _ => none)
      (calling .failure oneLock) := by
    have hstep : Step hexEnv noon lazyCfg (calling .lock fun _ => none) _ :=
      .acquire 0 oneRequest oneKey rfl rfl
    rwa [calling_set] at hstep
  have hfailure : Step hexEnv noon lazyCfg (calling .failure oneLock) (calling .non200 oneLock) := by
    have hstep : Step hexEnv noon lazyCfg (calling .failure oneLock) _ :=
      .noFailure 0 oneRequest oneKey rfl (by simp [calling, State.set, boot])
    rwa [calling_set] at hstep
  have hlock : Step hexEnv noon lazyCfg (calling .non200 oneLock) (calling .fetch oneLock) := by
    have hstep : Step hexEnv noon lazyCfg (calling .non200 oneLock) _ :=
      .missLocked 0 oneRequest oneKey 0 rfl (by simp [calling, State.set, boot])
        (congrArg Prod.fst hlocked)
    rwa [calling_set, show (lookupLocked (calling .non200 oneLock).store oneKey 0).2 = openStore ∅
      from congrArg Prod.snd hlocked] at hstep
  have hanswer : Step hexEnv noon lazyCfg (calling .fetch oneLock) filled :=
    .answered 0 oneRequest oneKey (some ⟨200, none, none, goodAtNoon⟩) relayedAtNoon 1784203200
      1784203200 1 rfl rfl rfl
  exact reachable_step (reachable_step (reachable_step (reachable_step (reachable_step
    (reachable_start rfl) hmiss) hacquire) hfailure) hlock) hanswer

end Served

end Pccs.Ocsp
