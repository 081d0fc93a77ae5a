import Pccs.OcspRuns
import Pccs.Seed

/-!
# Reads and the identities they are for

A run of store writes remembers every record it has written. A reader that
compares the record it finds with its request answers only with records of that
identity, whatever the digest does. Three readers go by the row key alone; they
do so as long as no record of another identity has been written under the key
they read.
-/
namespace Pccs.Reads

open Text Json Fallible KeyValue Store Fifo Appraisal

section Identities

/-- A record as it was written. A policy list is written policy by policy. -/
inductive Item where
  | pckcert : PckCertRecord → Item
  | platform : PlatformPool → Item
  | tcb : TcbRecord → Item
  | identity : IdentityRecord → Item
  | pckcrl : PckCrlRecord → Item
  | crl : CrlRecord → Item
  | amdKds : AmdKdsRecord → Item
  | nvidiaRim : AmdKdsRecord → Item
  | nvidiaOcsp : NvidiaOcspRecord → Item
  | policy : AppraisalPolicy → Item

/-- What a record is about, and what a read asks for. -/
inductive Identity where
  | pckcert (qeid pceid cpusvn pcesvn : String)
  | platform (qeid pceid : String)
  | tcb (prodType version : Nat) (fmspc update : String)
  | identity (enclaveId version : Nat) (update : String)
  | pckcrl (ca : String)
  | crl (uri : String)
  | amdKds (url : String)
  | nvidiaRim (url : String)
  | nvidiaOcsp (cacheKey : String)
  | policies (fmspc : String)
deriving DecidableEq

/-- Hex identifiers, update and CA names are compared ignoring case, URLs and
URIs exactly. -/
def Identity.canonical : Identity → Identity
  | .pckcert qeid pceid cpusvn pcesvn => .pckcert (toAsciiLowercase qeid)
      (toAsciiLowercase pceid) (toAsciiLowercase cpusvn) (toAsciiLowercase pcesvn)
  | .platform qeid pceid => .platform (toAsciiLowercase qeid) (toAsciiLowercase pceid)
  | .tcb prodType version fmspc update =>
    .tcb prodType version (toAsciiLowercase fmspc) (toAsciiLowercase update)
  | .identity enclaveId version update => .identity enclaveId version (toAsciiLowercase update)
  | .pckcrl ca => .pckcrl (toAsciiLowercase ca)
  | .policies fmspc => .policies (toAsciiLowercase fmspc)
  | i => i

def Item.about : Item → Identity
  | .pckcert rec => .pckcert rec.qeid rec.pceid rec.cpusvn rec.pcesvn
  | .platform pool => .platform pool.qeId pool.pceId
  | .tcb rec => .tcb rec.prodType rec.version rec.fmspc rec.updateType
  | .identity rec => .identity rec.enclaveId rec.version rec.updateType
  | .pckcrl rec => .pckcrl rec.ca
  | .crl rec => .crl rec.uri
  | .amdKds rec => .amdKds rec.url
  | .nvidiaRim rec => .nvidiaRim rec.url
  | .nvidiaOcsp rec => .nvidiaOcsp rec.cacheKey
  | .policy p => .policies p.fmspc

def itemsOf : Row → List Item
  | .pckcert rec => [.pckcert rec]
  | .platform pool => [.platform pool]
  | .tcb rec => [.tcb rec]
  | .identity rec => [.identity rec]
  | .pckcrl rec => [.pckcrl rec]
  | .crl rec => [.crl rec]
  | .amdKds rec => [.amdKds rec]
  | .nvidiaRim rec => [.nvidiaRim rec]
  | .nvidiaOcsp rec => [.nvidiaOcsp rec]
  | .appraisal policies => policies.map .policy
  | _ => []

/-- The records a batch writes. -/
def written (batch : WriteBatch) : List Item :=
  batch.flatMap fun
    | .put _ row => itemsOf row
    | .delete _ => []

/-- The record is in the log and is about the identity. -/
def StoredFor (log : List Item) (i : Identity) (item : Item) : Prop :=
  item ∈ log ∧ item.about.canonical = i.canonical

end Identities

section Calls

/-- The writes of the store. The clock of a bounded write is an argument. -/
inductive Call where
  | putPckcert (rec : PckCertRecord)
  | putPlatformPool (pool : PlatformPool)
  | replacePlatformCerts (fresh : PlatformPool)
  | selectPlatformCert (qeid pceid : String) (persist : Bool)
      (select : PlatformPool → Except PccsError PckCertRecord)
  | replacePlatformCertsAfterFetch (fresh : PlatformPool) (publication : PlatformPublication)
      (tcbs : List TcbRecord) (selected : Option PckCertRecord)
      (select : PlatformPool → RawTcb → Except PccsError PckCertRecord)
  | mergePckcertAfterFetch (rec : PckCertRecord) (publication : PlatformPublication)
  | upsertRawTcb (qeid pceid cpusvn pcesvn tcbm : String)
  | removeRawTcb (qeid pceid cpusvn pcesvn : String)
  | putTcb (rec : TcbRecord)
  | putIdentity (rec : IdentityRecord)
  | putPckcrl (rec : PckCrlRecord)
  | putRootcacrl (crl : List UInt8)
  | putCrl (uri : String) (crl : List UInt8)
  | putAmdKds (micros : Nat) (rec : AmdKdsRecord)
  | putNvidiaRim (micros : Nat) (rec : AmdKdsRecord)
  | putNvidiaOcsp (micros : Nat) (rec : NvidiaOcspRecord)
  | deleteKey (key : String)
  | sweepPrefix (kind : Kind) (expired : Row → Bool)
  | registerPlatform (p : RegisteredPlatform)
  | deleteRegistered (p : RegisteredPlatform)
  | takeRegistered (state : Nat)
  | putAppraisalPolicy (body : Value)
  | upsertAppraisalPolicyRaw (fmspc policy : String) (isDefault : Bool)
  | loadSeedValue (v : Value)
  | putPlatformCollateral (body : Value) (version : Nat)

/-- The writes of a fallible operation: none if it fails. -/
def committed {α : Type} (r : Except PccsError (α × WriteBatch)) : WriteBatch :=
  (r.toOption.map Prod.snd).getD []

/-- The writes of `PUT /platformcollateral`: the documents stay if a platform is
refused. -/
def collateralWrites (env : Env) (body : Value) (version : Nat) : List (Database → WriteBatch) :=
  match Validate.platformCollateral body version with
  | .error _ => []
  | .ok () =>
    [fun _ => Collateral.documentWrites env body version,
      fun db => ((Collateral.platformWrites env db body version).toOption).getD []]

/-- What the calls that commit one batch queue. -/
def Call.batch (env : Env) (db : Database) : Call → WriteBatch
  | .putPckcert rec => [Store.putPckcert env rec]
  | .putPlatformPool pool => [Store.putPlatformPool env pool]
  | .replacePlatformCerts fresh => (Store.replacePlatformCerts env db fresh).2
  | .selectPlatformCert qeid pceid persist select =>
    committed (Store.selectPlatformCert env db qeid pceid persist select)
  | .replacePlatformCertsAfterFetch fresh publication tcbs selected select =>
    committed (Store.replacePlatformCertsAfterFetch env db fresh publication tcbs selected select)
  | .mergePckcertAfterFetch rec publication =>
    committed (Store.mergePckcertAfterFetch env db rec publication)
  | .upsertRawTcb qeid pceid cpusvn pcesvn tcbm =>
    Store.upsertRawTcb env db qeid pceid cpusvn pcesvn tcbm
  | .removeRawTcb qeid pceid cpusvn pcesvn => Store.removeRawTcb env db qeid pceid cpusvn pcesvn
  | .putTcb rec => [Store.putTcb env rec]
  | .putIdentity rec => [Store.putIdentity env rec]
  | .putPckcrl rec => [Store.putPckcrl env rec]
  | .putRootcacrl crl => [Store.putRootcacrl crl]
  | .putCrl uri crl => [Store.putCrl env uri crl]
  | .registerPlatform p => [Store.registerPlatform env p]
  | .deleteRegistered p => [Store.deleteRegistered env p]
  | .takeRegistered state => (Store.takeRegistered db state).2
  | .putAppraisalPolicy body => committed (Appraisal.putAppraisalPolicy env db body)
  | .upsertAppraisalPolicyRaw fmspc policy isDefault =>
    [Appraisal.upsertAppraisalPolicyRaw env db fmspc policy isDefault]
  | .loadSeedValue v => Seed.loadSeedValue env v db
  | _ => []

/-- The store after a call and the records the call has written. -/
def Call.run (env : Env) (s : FifoStore) : Call → FifoStore × List Item
  | .putAmdKds micros rec => (Fifo.putAmdKds env s micros rec, [.amdKds rec])
  | .putNvidiaRim micros rec => (Fifo.putNvidiaRim env s micros rec, [.nvidiaRim rec])
  | .putNvidiaOcsp micros rec => (Fifo.putNvidiaOcsp s micros rec, [.nvidiaOcsp rec])
  | .deleteKey key => (Fifo.deleteKey s key, [])
  | .sweepPrefix kind expired => (Fifo.sweepPrefix s kind expired, [])
  | .putPlatformCollateral body version =>
    ({ s with db := (Collateral.putPlatformCollateral env s.db body version).2 },
      written (inOrder s.db (collateralWrites env body version)))
  | call => ({ s with db := write s.db (call.batch env s.db) }, written (call.batch env s.db))

/-- Any sequence of writes and restarts from an empty store, with everything it
has written so far. -/
inductive Run (env : Env) : List Item → FifoStore → Prop
  | start : Run env [] (openStore ∅)
  | call {log : List Item} {s : FifoStore} (c : Call) (h : Run env log s) :
      Run env ((c.run env s).2 ++ log) (c.run env s).1
  | reopen {log : List Item} {s : FifoStore} (max : Nat) (h : Run env log s) :
      Run env log (setReadthroughMaxEntries (openStore s.db) max)

end Calls

section Requests

inductive Request where
  | getPckcert (qeid cpusvn pcesvn pceid : String)
  | hasPlatform (qeid pceid : String)
  | getPlatformPool (qeid pceid : String)
  | getTcb (prodType : Nat) (fmspc : String) (version : Nat) (update : UpdateType)
  | getIdentity (enclaveId version : Nat) (update : UpdateType)
  | getPckcrl (ca : String)
  | getCrl (uri : String)
  | getAmdKds (url : String)
  | getNvidiaRim (url : String)
  | getNvidiaOcsp (cacheKey : String)
  | getDefaultPolicies (fmspc : String)

/-- The read answers, if at all, with records written for what it asks. -/
def OnlyOwn (env : Env) (log : List Item) (s : FifoStore) : Request → Prop
  | .getPckcert qeid cpusvn pcesvn pceid =>
    ∀ rec, Store.getPckcert env s.db qeid cpusvn pcesvn pceid = some rec →
      StoredFor log (.pckcert qeid pceid cpusvn pcesvn) (.pckcert rec)
  | .hasPlatform qeid pceid =>
    Store.hasPlatform env s.db qeid pceid = true →
      ∃ pool, StoredFor log (.platform qeid pceid) (.platform pool)
  | .getPlatformPool qeid pceid =>
    ∀ pool, Store.getPlatformPool env s.db qeid pceid = some pool →
      StoredFor log (.platform qeid pceid) (.platform pool)
  | .getTcb prodType fmspc version update =>
    ∀ rec, Store.getTcb env s.db prodType fmspc version update = some rec →
      StoredFor log (.tcb prodType version fmspc update.asStr) (.tcb rec)
  | .getIdentity enclaveId version update =>
    ∀ rec, Store.getIdentity env s.db enclaveId version update = some rec →
      StoredFor log (.identity enclaveId version update.asStr) (.identity rec)
  | .getPckcrl ca =>
    ∀ rec, Store.getPckcrl env s.db ca = some rec → StoredFor log (.pckcrl ca) (.pckcrl rec)
  | .getCrl uri =>
    ∀ bytes, Store.getCrl env s.db uri = some bytes → StoredFor log (.crl uri) (.crl ⟨uri, bytes⟩)
  | .getAmdKds url =>
    ∀ rec, Fifo.getAmdKds env s.db url = some rec → StoredFor log (.amdKds url) (.amdKds rec)
  | .getNvidiaRim url =>
    ∀ rec, Fifo.getNvidiaRim env s.db url = some rec →
      StoredFor log (.nvidiaRim url) (.nvidiaRim rec)
  | .getNvidiaOcsp cacheKey =>
    ∀ rec, Ocsp.getNvidiaOcsp s cacheKey = some rec →
      StoredFor log (.nvidiaOcsp cacheKey) (.nvidiaOcsp rec)
  | .getDefaultPolicies fmspc =>
    ∀ text, Appraisal.getDefaultPolicies env s.db fmspc = .ok text →
      ∃ policies : List AppraisalPolicy,
        text = ",".intercalate (policies.map AppraisalPolicy.policy) ∧
        ∀ p ∈ policies, p.isDefault = true ∧ StoredFor log (.policies fmspc) (.policy p)

/-- Nothing of another identity has been written under the key the request
reads. Asked only of the readers that do not look at the record. -/
def Clear (env : Env) (log : List Item) : Request → Prop
  | .hasPlatform qeid pceid =>
    ∀ pool, .platform pool ∈ log →
      Keys.platform env pool.qeId pool.pceId = Keys.platform env qeid pceid →
      (Identity.platform pool.qeId pool.pceId).canonical = (Identity.platform qeid pceid).canonical
  | .getCrl uri =>
    ∀ rec, .crl rec ∈ log → Keys.crl env rec.uri = Keys.crl env uri → rec.uri = uri
  | .getDefaultPolicies fmspc =>
    ∀ p, .policy p ∈ log → Keys.appraisal env p.fmspc = Keys.appraisal env fmspc →
      toAsciiLowercase p.fmspc = toAsciiLowercase fmspc
  | _ => True

end Requests

section Homes

variable {env : Env} {db : Database}

/-- Not the key of a platform. -/
def Elsewhere (env : Env) (key : List UInt8) : Prop :=
  ∀ qeid pceid, key ≠ Keys.platform env qeid pceid

/-- The row is at the key of what it is about. Only the kinds that some reader
takes by the key alone matter. -/
def Home (env : Env) (key : List UInt8) : Row → Prop
  | .platform pool => key = Keys.platform env pool.qeId pool.pceId
  | .crl rec => key = Keys.crl env rec.uri
  | .appraisal policies =>
    Elsewhere env key ∧ ∀ p ∈ policies, Keys.appraisal env p.fmspc = key
  | _ => Elsewhere env key

def AllHome (env : Env) (db : Database) : Prop :=
  ∀ key row, db[key]? = some row → Home env key row

def Homed (env : Env) : Write UInt8 Row → Prop
  | .put key row => Home env key row
  | .delete _ => True

theorem elsewhere_word {word : String} (h : Keys.Apart word Keys.platformPrefix)
    (rest : List UInt8) : Elsewhere env (asBytes word ++ rest) := by
  intro qeid pceid he
  rw [Keys.platform, Keys.make, Keys.under, asBytes_append] at he
  exact Keys.append_ne h.1 h.2 _ _ he

theorem elsewhere_make {kind : String} (h : Keys.Apart kind Keys.platformPrefix)
    (parts : List String) : Elsewhere env (Keys.make env kind parts) := fun _ _ => Keys.under_ne h _ _

theorem allHome_write {batch : WriteBatch} (h : AllHome env db) (hb : ∀ w ∈ batch, Homed env w) :
    AllHome env (write db batch) := by
  intro key row hrow
  obtain hrow | hput := get_write_some hrow
  · exact h key row hrow
  · exact hb _ hput

theorem homed_putPckcert (rec : PckCertRecord) : Homed env (putPckcert env rec) :=
  elsewhere_make (by decide) _

theorem homed_putPlatformPool (pool : PlatformPool) : Homed env (putPlatformPool env pool) := rfl

theorem homed_putTcb (rec : TcbRecord) : Homed env (putTcb env rec) := elsewhere_make (by decide) _

theorem homed_putIdentity (rec : IdentityRecord) : Homed env (putIdentity env rec) :=
  elsewhere_make (by decide) _

theorem homed_putPckcrl (rec : PckCrlRecord) : Homed env (putPckcrl env rec) :=
  elsewhere_make (by decide) _

theorem homed_putRootcacrl (crl : List UInt8) : Homed env (putRootcacrl crl) :=
  elsewhere_word (by decide : Keys.Apart "rootcacrl" Keys.platformPrefix) []

theorem homed_putCrl (uri : String) (crl : List UInt8) : Homed env (putCrl env uri crl) := rfl

theorem homed_registerPlatform (p : RegisteredPlatform) : Homed env (registerPlatform env p) :=
  elsewhere_make (by decide) _

/-- Policies already in the list were put under the key the list is at. -/
theorem homed_listWrite (h : AllHome env db) (entry : AppraisalPolicy) :
    Homed env (listWrite env db entry) := by
  refine ⟨elsewhere_make (by decide) _, fun p hp => ?_⟩
  have hold : ∀ q ∈ (storedList env db entry.fmspc).getD [],
      Keys.appraisal env q.fmspc = Keys.appraisal env entry.fmspc := by
    unfold storedList
    cases hrow : db[Keys.appraisal env entry.fmspc]? with
    | none => simp
    | some row =>
      have hhome := h _ row hrow
      cases row with
      | appraisal policies => exact hhome.2
      | _ => simp [rowAppraisal]
  have hcleared : ∀ q ∈ (if entry.isDefault = true then
      clearDefaults ((storedList env db entry.fmspc).getD [])
      else (storedList env db entry.fmspc).getD []),
      Keys.appraisal env q.fmspc = Keys.appraisal env entry.fmspc := by
    split
    · intro q hq
      obtain ⟨x, hx, rfl⟩ := List.mem_map.mp hq
      exact hold x hx
    · exact hold
  exact mem_upsertById_or hp |>.elim (fun he => he ▸ rfl) (hcleared p)

theorem homed_committed {α : Type} {r : Except PccsError (α × WriteBatch)}
    (h : ∀ a batch, r = .ok (a, batch) → ∀ w ∈ batch, Homed env w) :
    ∀ w ∈ committed r, Homed env w := by
  cases r with
  | error e => simp [committed, Except.toOption]
  | ok out => exact h out.1 out.2 rfl

theorem homed_selectPlatformCert (qeid pceid : String) (persist : Bool)
    (select : PlatformPool → Except PccsError PckCertRecord) :
    ∀ w ∈ committed (selectPlatformCert env db qeid pceid persist select), Homed env w := by
  apply homed_committed
  intro rec batch hok
  obtain ⟨pool, hpool, hok⟩ := bind_eq_ok.mp hok
  obtain ⟨rec', _, hok⟩ := bind_eq_ok.mp hok
  obtain ⟨_, hqe, hpce⟩ := getPlatformPool_eq_some.mp (require_eq_ok.mp hpool)
  split at hok
  · cases pure_eq_ok.mp hok
    simp only [List.forall_mem_cons]
    exact ⟨homed_putPckcert _, (Keys.platform_congr hqe hpce).symm, by simp⟩
  · cases pure_eq_ok.mp hok
    simp

theorem homed_replace (fresh : PlatformPool) (publication : PlatformPublication)
    (tcbs : List TcbRecord) (selected : Option PckCertRecord)
    (select : PlatformPool → RawTcb → Except PccsError PckCertRecord) :
    ∀ w ∈ committed (replacePlatformCertsAfterFetch env db fresh publication tcbs selected select),
      Homed env w :=
  homed_committed fun _ _ => replace_forall homed_putPckcert homed_putTcb homed_putPlatformPool

theorem homed_merge (rec : PckCertRecord) (publication : PlatformPublication) :
    ∀ w ∈ committed (mergePckcertAfterFetch env db rec publication), Homed env w :=
  homed_committed fun _ _ => merge_forall homed_putPckcert homed_putPlatformPool

/-- The documents are in the database when the platforms are looked at. -/
theorem putPlatformCollateral_db (body : Value) (version : Nat) :
    (Collateral.putPlatformCollateral env db body version).2 =
      write db (inOrder db (collateralWrites env body version)) := by
  unfold Collateral.putPlatformCollateral collateralWrites
  cases Validate.platformCollateral body version with
  | error e => rfl
  | ok u =>
    simp only [inOrder, List.append_nil, write_append]
    cases Collateral.platformWrites env (write db (Collateral.documentWrites env body version)) body
      version with
    | error e => rfl
    | ok batch => rfl

theorem homed_collateral (h : AllHome env db) (body : Value) (version : Nat) :
    ∀ w ∈ inOrder db (collateralWrites env body version), Homed env w := by
  refine inOrder_forall (fun db batch => allHome_write) ?_ h
  intro step hstep db _ w hw
  unfold collateralWrites at hstep
  split at hstep
  · cases hstep
  · obtain rfl | hstep := List.mem_cons.mp hstep
    · exact Collateral.documentWrites_forall homed_putTcb homed_putIdentity homed_putPckcrl
        homed_putRootcacrl homed_putCrl body version w hw
    · cases List.mem_singleton.mp hstep
      cases hok : Collateral.platformWrites env db body version with
      | error e => simp [hok, Except.toOption] at hw
      | ok batch =>
        simp only [hok, Except.toOption, Option.getD_some] at hw
        exact Collateral.platformWrites_forall homed_putPckcert homed_putPlatformPool hok w hw

theorem homed_seed (h : AllHome env db) (v : Value) :
    ∀ w ∈ Seed.loadSeedValue env v db, Homed env w := by
  refine inOrder_forall (fun db batch => allHome_write) ?_ h
  intro step hstep db hdb w hw
  simp only [Seed.seedSteps, List.mem_append, List.mem_map, List.mem_singleton, or_assoc] at hstep
  obtain ⟨item, _, rfl⟩ | ⟨item, _, rfl⟩ | ⟨item, _, rfl⟩ | ⟨item, _, rfl⟩ | ⟨item, _, rfl⟩ | rfl |
    ⟨item, _, rfl⟩ | ⟨item, _, rfl⟩ := hstep
  · unfold Seed.upsertPckcertFromJson at hw
    split at hw
    · cases hw
    · obtain rfl | hw := List.mem_cons.mp hw
      · exact homed_putPlatformPool _
      · cases List.mem_singleton.mp hw
        exact homed_putPckcert _
  · unfold Seed.upsertSeedPlatform at hw
    simp only at hw
    split at hw
    · cases hw
    · cases List.mem_singleton.mp hw
      exact homed_putPlatformPool _
  · simp only [Seed.upsertTcbFromJson] at hw
    split at hw
    · cases hw
    · cases List.mem_singleton.mp hw
      exact homed_putTcb _
  · cases List.mem_singleton.mp hw
    exact homed_putIdentity _
  · obtain ⟨bytes, _, rfl⟩ := List.mem_map.mp hw
    exact homed_putPckcrl _
  · obtain ⟨bytes, _, rfl⟩ := List.mem_map.mp hw
    exact homed_putRootcacrl bytes
  · simp only [Seed.seedCrl] at hw
    split at hw
    · cases hw
    · obtain ⟨bytes, _, rfl⟩ := List.mem_map.mp hw
      exact homed_putCrl _ bytes
  · simp only [Seed.seedPolicy] at hw
    split at hw
    · cases List.mem_singleton.mp hw
      exact homed_listWrite hdb _
    · cases hw

theorem homed_batch (h : AllHome env db) (c : Call) : ∀ w ∈ c.batch env db, Homed env w := by
  cases c with
  | putPckcert rec => exact List.forall_mem_singleton.mpr (homed_putPckcert rec)
  | putPlatformPool pool => exact List.forall_mem_singleton.mpr (homed_putPlatformPool pool)
  | replacePlatformCerts fresh => exact List.forall_mem_singleton.mpr (homed_putPlatformPool _)
  | selectPlatformCert qeid pceid persist select =>
    exact homed_selectPlatformCert qeid pceid persist select
  | replacePlatformCertsAfterFetch fresh publication tcbs selected select =>
    exact homed_replace fresh publication tcbs selected select
  | mergePckcertAfterFetch rec publication => exact homed_merge rec publication
  | upsertRawTcb qeid pceid cpusvn pcesvn tcbm =>
    simp only [Call.batch, upsertRawTcb]
    split
    · exact List.forall_mem_nil _
    · exact List.forall_mem_singleton.mpr (homed_putPlatformPool _)
  | removeRawTcb qeid pceid cpusvn pcesvn =>
    simp only [Call.batch, removeRawTcb]
    split
    · exact List.forall_mem_nil _
    · exact List.forall_mem_singleton.mpr (homed_putPlatformPool _)
  | putTcb rec => exact List.forall_mem_singleton.mpr (homed_putTcb rec)
  | putIdentity rec => exact List.forall_mem_singleton.mpr (homed_putIdentity rec)
  | putPckcrl rec => exact List.forall_mem_singleton.mpr (homed_putPckcrl rec)
  | putRootcacrl crl => exact List.forall_mem_singleton.mpr (homed_putRootcacrl crl)
  | putCrl uri crl => exact List.forall_mem_singleton.mpr (homed_putCrl uri crl)
  | registerPlatform p => exact List.forall_mem_singleton.mpr (homed_registerPlatform p)
  | deleteRegistered p => exact List.forall_mem_singleton.mpr trivial
  | takeRegistered state =>
    intro w hw
    obtain ⟨row, _, rfl⟩ := List.mem_map.mp hw
    exact trivial
  | putAppraisalPolicy body =>
    apply homed_committed
    intro id batch hok
    obtain ⟨reg, _, hok⟩ := bind_eq_ok.mp hok
    cases pure_eq_ok.mp hok
    exact List.forall_mem_singleton.mpr (homed_listWrite h _)
  | upsertAppraisalPolicyRaw fmspc policy isDefault =>
    exact List.forall_mem_singleton.mpr (homed_listWrite h _)
  | loadSeedValue v => exact homed_seed h v
  | _ => exact List.forall_mem_nil _

end Homes

section Logs

variable {env : Env} {log items : List Item} {db db' : Database}

/-- Every row is at its home and all its records are in the log. -/
structure Kept (env : Env) (log : List Item) (db : Database) : Prop where
  home : AllHome env db
  logged : ∀ (key : List UInt8) (row : Row), db[key]? = some row → itemsOf row ⊆ log

/-- A row of the new database is an old one, or at its home with records of the
list. -/
def Adds (env : Env) (items : List Item) (db db' : Database) : Prop :=
  ∀ (key : List UInt8) (row : Row), db'[key]? = some row →
    db[key]? = some row ∨ Home env key row ∧ itemsOf row ⊆ items

theorem Kept.adds (h : Kept env log db) (ha : Adds env items db db') :
    Kept env (items ++ log) db' where
  home key row hrow := by
    obtain hold | ⟨hhome, _⟩ := ha key row hrow
    · exact h.home key row hold
    · exact hhome
  logged key row hrow := by
    obtain hold | ⟨_, hitems⟩ := ha key row hrow
    · exact List.subset_append_of_subset_right items (h.logged key row hold)
    · exact List.subset_append_of_subset_left log hitems

/-- The write puts a row at its home, with records of the list. -/
def Brings (env : Env) (items : List Item) : Write UInt8 Row → Prop
  | .put key row => Home env key row ∧ itemsOf row ⊆ items
  | .delete _ => True

theorem adds_write {batch : WriteBatch} (h : ∀ w ∈ batch, Brings env items w) :
    Adds env items db (write db batch) := fun _ _ hrow => (get_write_some hrow).imp_right (h _)

theorem adds_batch {batch : WriteBatch} (h : ∀ w ∈ batch, Homed env w) :
    Adds env (written batch) db (write db batch) := by
  refine adds_write fun w hw => ?_
  cases w with
  | delete key => exact trivial
  | put key row => exact ⟨h _ hw, fun item hitem => List.mem_flatMap.mpr ⟨_, hw, hitem⟩⟩

theorem brings_pos (entry : List UInt8) (n : Nat) :
    Brings env items (.put (fifoPosKey entry) (.word n)) :=
  ⟨elsewhere_word (by decide) entry, List.nil_subset items⟩

theorem brings_order (kind : Kind) (stamp : Nat) (entry : List UInt8) :
    Brings env items (.put (fifoOrderKey kind stamp entry) .mark) := by
  refine ⟨?_, List.nil_subset items⟩
  change Elsewhere env (fifoOrderKey kind stamp entry)
  rw [fifoOrderKey, fifoOrderPrefix, asBytes_append, List.append_assoc]
  exact elsewhere_word (by decide) _

theorem brings_count (kind : Kind) (n : Nat) :
    Brings env items (.put (fifoCountKey kind) (.word n)) := by
  refine ⟨?_, List.nil_subset items⟩
  change Elsewhere env (fifoCountKey kind)
  rw [fifoCountKey, asBytes_append]
  exact elsewhere_word (by decide) _

theorem brings_unindex (db : Database) (kind : Kind) (entry : List UInt8) :
    ∀ w ∈ (unindex db kind entry).1, Brings env items w := by
  intro w hw
  cases w with
  | delete key => exact trivial
  | put key row => exact absurd hw (Ocsp.unindex_puts db kind entry key row)

theorem adds_putBounded (s : FifoStore) (micros : Nat) (kind : Kind) {entry : List UInt8} {val : Row}
    (h : Home env entry val) : Adds env (itemsOf val) s.db (putBounded s micros kind entry val).db := by
  refine adds_write fun w hw => ?_
  simp only [List.mem_append, List.mem_cons, List.mem_map, List.mem_flatMap, List.not_mem_nil,
    or_false] at hw
  obtain ((⟨t, _, rfl⟩ | rfl | rfl | rfl) | ⟨p, _, rfl | rfl | rfl⟩) | rfl := hw
  · exact trivial
  · exact ⟨h, fun _ hitem => hitem⟩
  · exact brings_pos entry _
  · exact brings_order kind _ entry
  · exact trivial
  · exact trivial
  · exact trivial
  · exact brings_count kind _

theorem adds_deleteKey (s : FifoStore) (key : String) : Adds env [] s.db (deleteKey s key).db := by
  unfold deleteKey
  split
  · exact adds_write (List.forall_mem_singleton.mpr trivial)
  · rename_i kind _
    refine adds_write fun w hw => ?_
    obtain hw | hw := List.mem_append.mp hw
    · obtain rfl | hw := List.mem_cons.mp hw
      · exact trivial
      · exact brings_unindex s.db kind _ w hw
    · split at hw
      · cases List.mem_singleton.mp hw
        exact brings_count kind _
      · cases hw

theorem adds_sweepPrefix (s : FifoStore) (kind : Kind) (expired : Row → Bool) :
    Adds env [] s.db (sweepPrefix s kind expired).db := by
  unfold sweepPrefix
  simp only
  split
  · exact fun _ _ hrow => .inl hrow
  · refine adds_write fun w hw => ?_
    obtain hw | hw := List.mem_append.mp hw
    · obtain ⟨key, _, hw⟩ := List.mem_flatMap.mp hw
      obtain rfl | hw := List.mem_cons.mp hw
      · exact trivial
      · exact brings_unindex s.db kind key w hw
    · split at hw
      · cases List.mem_singleton.mp hw
        exact brings_count kind _
      · cases hw

theorem adds_indexBatch (db : Database) (kind : Kind) :
    Adds env [] db (write db (indexBatch db kind)) := by
  refine adds_write fun w hw => ?_
  unfold indexBatch at hw
  simp only at hw
  split at hw
  · cases hw
  · obtain hw | hw := List.mem_append.mp hw
    · obtain ⟨⟨⟨fetched, key⟩, i⟩, _, hw⟩ := List.mem_flatMap.mp hw
      obtain rfl | hw := List.mem_cons.mp hw
      · exact brings_order kind _ key
      · cases List.mem_singleton.mp hw
        exact brings_pos key _
    · cases List.mem_singleton.mp hw
      exact brings_count kind _

theorem kept_openStore (h : Kept env log db) : Kept env log (openStore db).db := by
  have hone : ∀ db kind, Kept env log db → Kept env log (write db (indexBatch db kind)) :=
    fun db kind h => h.adds (adds_indexBatch db kind)
  exact hone _ .nvidiaOcsp (hone _ .nvidiaRim (hone _ .amdKds h))

theorem kept_call {s : FifoStore} (h : Kept env log s.db) (c : Call) :
    Kept env ((c.run env s).2 ++ log) (c.run env s).1.db := by
  have hplain := h.adds (adds_batch (homed_batch h.home c))
  cases c with
  | putAmdKds micros rec =>
    exact h.adds (adds_putBounded s micros .amdKds fun _ _ => Keys.under_ne (by decide) _ _)
  | putNvidiaRim micros rec =>
    exact h.adds (adds_putBounded s micros .nvidiaRim fun _ _ => Keys.under_ne (by decide) _ _)
  | putNvidiaOcsp micros rec =>
    exact h.adds (adds_putBounded s micros .nvidiaOcsp fun _ _ => Keys.under_ne (by decide) _ _)
  | deleteKey key => exact h.adds (adds_deleteKey s key)
  | sweepPrefix kind expired => exact h.adds (adds_sweepPrefix s kind expired)
  | putPlatformCollateral body version =>
    refine h.adds ?_
    simp only [Call.run, putPlatformCollateral_db]
    exact adds_batch (homed_collateral h.home body version)
  | _ => exact hplain

theorem kept_of_run {s : FifoStore} (h : Run env log s) : Kept env log s.db := by
  induction h with
  | start => exact kept_openStore ⟨fun _ _ h => by simp at h, fun _ _ h => by simp at h⟩
  | call c _ ih => exact kept_call ih c
  | reopen max _ ih => exact kept_openStore ih

end Logs

section Answers

variable {env : Env} {log : List Item} {s : FifoStore}

theorem Kept.hasPlatform (h : Kept env log s.db) {qeid pceid : String}
    (hclear : Clear env log (.hasPlatform qeid pceid)) :
    OnlyOwn env log s (.hasPlatform qeid pceid) := by
  intro hhas
  obtain ⟨row, hrow⟩ := Option.isSome_iff_exists.mp hhas
  have hhome := h.home _ row hrow
  cases row with
  | platform pool =>
    have hmem := h.logged _ _ hrow (List.mem_singleton_self _)
    exact ⟨pool, hmem, hclear pool hmem hhome.symm⟩
  | crl rec => exact absurd hhome.symm (Keys.under_ne (by decide) _ _)
  | appraisal policies => exact absurd rfl (hhome.1 qeid pceid)
  | _ => exact absurd rfl (hhome qeid pceid)

theorem Kept.getCrl (h : Kept env log s.db) {uri : String} (hclear : Clear env log (.getCrl uri)) :
    OnlyOwn env log s (.getCrl uri) := by
  intro bytes hget
  obtain ⟨rec, hrec, rfl⟩ := Option.map_eq_some_iff.mp hget
  obtain ⟨row, hrow, hrec⟩ := Option.bind_eq_some_iff.mp hrec
  cases row with
  | crl rec' =>
    cases hrec
    have hmem := h.logged _ _ hrow (List.mem_singleton_self _)
    obtain rfl := hclear rec hmem (h.home _ _ hrow).symm
    exact ⟨hmem, rfl⟩
  | _ => cases hrec

theorem Kept.getDefaultPolicies (h : Kept env log s.db) {fmspc : String}
    (hclear : Clear env log (.getDefaultPolicies fmspc)) :
    OnlyOwn env log s (.getDefaultPolicies fmspc) := by
  intro text hget
  obtain ⟨policies, hlist, hget⟩ := bind_eq_ok.mp hget
  obtain ⟨_, _, hget⟩ := bind_eq_ok.mp hget
  obtain ⟨row, hrow, hlist⟩ := Option.bind_eq_some_iff.mp (require_eq_ok.mp hlist)
  cases pure_eq_ok.mp hget
  cases row with
  | appraisal stored =>
    cases hlist
    refine ⟨policies.filter AppraisalPolicy.isDefault, rfl, fun p hp => ?_⟩
    obtain ⟨hmem, hdefault⟩ := List.mem_filter.mp hp
    have hlog := h.logged _ _ hrow (List.mem_map_of_mem hmem)
    have hsame := hclear p hlog ((h.home _ _ hrow).2 p hmem)
    exact ⟨hdefault, hlog, congrArg Identity.policies hsame⟩
  | _ => cases hlist

theorem Kept.getTcb (h : Kept env log s.db) (prodType : Nat) (fmspc : String) (version : Nat)
    (update : UpdateType) : OnlyOwn env log s (.getTcb prodType fmspc version update) := by
  intro rec hget
  obtain ⟨found, hfound, hget⟩ := Option.bind_eq_some_iff.mp hget
  obtain ⟨row, hrow, hfound⟩ := Option.bind_eq_some_iff.mp hfound
  split at hget
  · cases hget
  · rename_i hcheck
    cases hget
    simp only [not_or, ne_eq, Decidable.not_not, Bool.not_eq_false, eqIgnoreAsciiCase_iff] at hcheck
    obtain ⟨hprod, hversion, hfmspc, hupdate⟩ := hcheck
    obtain ⟨rfl, _⟩ := Store.rowTcb_eq_some.mp hfound
    refine ⟨h.logged _ _ hrow (List.mem_singleton_self _), ?_⟩
    simp only [Item.about, Identity.canonical, hprod, hversion, hfmspc, hupdate]

theorem Kept.getIdentity (h : Kept env log s.db) (enclaveId version : Nat) (update : UpdateType) :
    OnlyOwn env log s (.getIdentity enclaveId version update) := by
  intro rec hget
  obtain ⟨found, hfound, hget⟩ := Option.bind_eq_some_iff.mp hget
  obtain ⟨row, hrow, hfound⟩ := Option.bind_eq_some_iff.mp hfound
  split at hget
  · cases hget
  · rename_i hcheck
    cases hget
    simp only [not_or, ne_eq, Decidable.not_not, Bool.not_eq_false, eqIgnoreAsciiCase_iff] at hcheck
    obtain ⟨hid, hversion, hupdate⟩ := hcheck
    obtain ⟨rfl, _⟩ := Store.rowIdentity_eq_some.mp hfound
    refine ⟨h.logged _ _ hrow (List.mem_singleton_self _), ?_⟩
    simp only [Item.about, Identity.canonical, hid, hversion, hupdate]

theorem Kept.getPckcrl (h : Kept env log s.db) (ca : String) :
    OnlyOwn env log s (.getPckcrl ca) := by
  intro rec hget
  obtain ⟨found, hfound, hget⟩ := Option.bind_eq_some_iff.mp hget
  obtain ⟨row, hrow, hfound⟩ := Option.bind_eq_some_iff.mp hfound
  split at hget
  · rename_i hca
    cases hget
    cases row with
    | pckcrl rec' =>
      cases hfound
      refine ⟨h.logged _ _ hrow (List.mem_singleton_self _), ?_⟩
      exact congrArg Identity.pckcrl ((eqIgnoreAsciiCase_iff _ _).mp hca)
    | _ => cases hfound
  · cases hget

theorem Kept.getAmdKds (h : Kept env log s.db) (url : String) :
    OnlyOwn env log s (.getAmdKds url) := by
  intro rec hget
  obtain ⟨found, hfound, hget⟩ := Option.bind_eq_some_iff.mp hget
  obtain ⟨row, hrow, hfound⟩ := Option.bind_eq_some_iff.mp hfound
  split at hget
  · cases hget
  · rename_i hurl
    cases hget
    cases row with
    | amdKds rec' =>
      cases hfound
      refine ⟨h.logged _ _ hrow (List.mem_singleton_self _), ?_⟩
      exact congrArg Identity.amdKds (Decidable.not_not.mp hurl)
    | _ => cases hfound

theorem Kept.getNvidiaRim (h : Kept env log s.db) (url : String) :
    OnlyOwn env log s (.getNvidiaRim url) := by
  intro rec hget
  obtain ⟨found, hfound, hget⟩ := Option.bind_eq_some_iff.mp hget
  obtain ⟨row, hrow, hfound⟩ := Option.bind_eq_some_iff.mp hfound
  split at hget
  · cases hget
  · rename_i hurl
    cases hget
    cases row with
    | nvidiaRim rec' =>
      cases hfound
      refine ⟨h.logged _ _ hrow (List.mem_singleton_self _), ?_⟩
      exact congrArg Identity.nvidiaRim (Decidable.not_not.mp hurl)
    | _ => cases hfound

/-- After any run every reader answers only with records written for what it was
asked, the three that go by the key as long as their key is clear. -/
theorem reads_own_identity (h : Run env log s) (r : Request) (hclear : Clear env log r) :
    OnlyOwn env log s r := by
  have hk := kept_of_run h
  cases r with
  | getPckcert qeid cpusvn pcesvn pceid =>
    intro rec hget
    obtain ⟨hrow, hqe, hpce, hcpu, hsvn⟩ := getPckcert_eq_some.mp hget
    refine ⟨hk.logged _ _ hrow (List.mem_singleton_self _), ?_⟩
    simp only [Item.about, Identity.canonical, hqe, hpce, hcpu, hsvn]
  | hasPlatform qeid pceid => exact hk.hasPlatform hclear
  | getPlatformPool qeid pceid =>
    intro pool hget
    obtain ⟨hrow, hqe, hpce⟩ := getPlatformPool_eq_some.mp hget
    refine ⟨hk.logged _ _ hrow (List.mem_singleton_self _), ?_⟩
    simp only [Item.about, Identity.canonical, hqe, hpce]
  | getTcb prodType fmspc version update => exact hk.getTcb prodType fmspc version update
  | getIdentity enclaveId version update => exact hk.getIdentity enclaveId version update
  | getPckcrl ca => exact hk.getPckcrl ca
  | getCrl uri => exact hk.getCrl hclear
  | getAmdKds url => exact hk.getAmdKds url
  | getNvidiaRim url => exact hk.getNvidiaRim url
  | getNvidiaOcsp cacheKey =>
    intro rec hget
    obtain ⟨hrow, hkey⟩ := Ocsp.getNvidiaOcsp_eq_some hget
    exact ⟨hk.logged _ _ hrow (List.mem_singleton_self _), congrArg Identity.nvidiaOcsp hkey⟩
  | getDefaultPolicies fmspc => exact hk.getDefaultPolicies hclear

/-- A CRL that was just put answers for every URI with its key. -/
theorem getCrl_putCrl {env : Env} {uri uri' : String} (s : FifoStore) (crl : List UInt8)
    (h : Keys.crl env uri = Keys.crl env uri') :
    Store.getCrl env (Call.run env s (.putCrl uri crl)).1.db uri' = some crl := by
  have hrow : (Call.run env s (.putCrl uri crl)).1.db[Keys.crl env uri']? =
      some (.crl ⟨uri, crl⟩) := by
    change (write s.db [putCrl env uri crl])[Keys.crl env uri']? = _
    rw [write_cons, write_nil, get_apply]
    exact if_pos h
  simp [Store.getCrl, hrow, rowCrl]

/-- Two CRLs and a restart. -/
def restarted (env : Env) : FifoStore :=
  let one := (Call.run env (openStore ∅) (.putCrl "https://crl/a" [1])).1
  let two := (Call.run env one (.putCrl "https://crl/b" [2])).1
  setReadthroughMaxEntries (openStore two.db) 10

theorem run_restarted (env : Env) :
    Run env [.crl ⟨"https://crl/b", [2]⟩, .crl ⟨"https://crl/a", [1]⟩] (restarted env) :=
  ((Run.start.call (.putCrl "https://crl/a" [1])).call (.putCrl "https://crl/b" [2])).reopen 10

/-- The newest of two CRLs of a URI is served, and not that of another URI. -/
theorem reads_own_identity_restarted :
    ∃ log s, Run Keys.plainEnv log s ∧
      log = [.crl ⟨"https://crl/a", [3]⟩, .crl ⟨"https://crl/b", [2]⟩, .crl ⟨"https://crl/a", [1]⟩] ∧
      Store.getCrl Keys.plainEnv s.db "https://crl/a" = some [3] ∧
      OnlyOwn Keys.plainEnv log s (.getCrl "https://crl/a") := by
  have hrun := (run_restarted Keys.plainEnv).call (.putCrl "https://crl/a" [3])
  refine ⟨_, _, hrun, rfl, getCrl_putCrl _ [3] rfl, reads_own_identity hrun _ ?_⟩
  have hkey : Keys.crl Keys.plainEnv "https://crl/b" ≠ Keys.crl Keys.plainEnv "https://crl/a" := by
    decide +kernel
  intro rec hmem hsame
  have hlog : Item.crl rec ∈ [.crl ⟨"https://crl/a", [3]⟩, .crl ⟨"https://crl/b", [2]⟩,
      .crl ⟨"https://crl/a", [1]⟩] := hmem
  have hcases : rec = ⟨"https://crl/a", [3]⟩ ∨ rec = ⟨"https://crl/b", [2]⟩ ∨
      rec = ⟨"https://crl/a", [1]⟩ := by
    simpa using hlog
  rcases hcases with rfl | rfl | rfl
  · rfl
  · exact absurd hsame hkey
  · rfl

/-- The key of a URI is lower-cased, so its CRL answers for every spelling. -/
theorem crl_of_other_uri :
    ∃ log s, Run Keys.plainEnv log s ∧ .crl ⟨"https://crl/A", [1]⟩ ∈ log ∧
      Store.getCrl Keys.plainEnv s.db "https://crl/a" = some [1] ∧
      ¬ OnlyOwn Keys.plainEnv log s (.getCrl "https://crl/a") := by
  have hkey : Keys.crl Keys.plainEnv "https://crl/A" = Keys.crl Keys.plainEnv "https://crl/a" := by
    decide +kernel
  have hrun : Run Keys.plainEnv [.crl ⟨"https://crl/A", [1]⟩] _ :=
    Run.start.call (.putCrl "https://crl/A" [1])
  have hget := getCrl_putCrl (openStore ∅) [1] hkey
  refine ⟨_, _, hrun, List.mem_singleton_self _, hget, fun hown => ?_⟩
  obtain ⟨hmem, _⟩ := hown [1] hget
  have hrec := Item.crl.inj (List.mem_singleton.mp hmem)
  exact absurd (congrArg CrlRecord.uri hrec) (by decide)

end Answers

end Pccs.Reads
