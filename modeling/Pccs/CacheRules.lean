import Pccs.Cache
import Pccs.CoherentWriters

/-!
# What the requests of the cache keep

`Duties` lists what has to be shown of single operations: whatever touches
neither pools nor records is harmless, and each publication keeps the invariant,
given where its arguments come from. The lemmas below carry that through every
fill once, so a property of all runs is a matter of its duties.
-/
namespace Pccs.Cache

open Text Json Fallible KeyValue Store Process Runs Coherence

abbrev Past : Type := List (Event Op Op.Res)

/-- Two kinds of requests are told apart: a GET may not do what others may. -/
inductive Role where
  | get | other
deriving DecidableEq

/-- The exchange that a pool with these credentials is fetched by. -/
def poolFetch (encPpid platformManifest pceid : String) : Fetch :=
  if platformManifest = "" then .pckcertsIntel encPpid pceid
  else .pckcertsIntelManifest platformManifest pceid

/-- The upstream answered the exchange, after what was performed `before`. -/
def Fetched (past before : Past) (f : Fetch) (http : HttpResponse) : Prop :=
  List.Sublist (⟨.fetch f, .ok http⟩ :: before) past

/-- The answer came from the upstream, for these credentials. -/
def Answered (env : Env) (past before : Past) (encPpid platformManifest pceid : String)
    (resp : PckCertsResponse) : Prop :=
  ∃ http, Fetched past before (poolFetch encPpid platformManifest pceid) http ∧
    parsePckcerts env http = .ok resp

/-- Where the context of a fill comes from: what it expects is what it read. A
GET on an Intel upstream only fills platforms that it did not find. -/
inductive Origin (cfg : Config) (past : Past) (qeid pceid : String) : Role → PckFetchContext → Prop
  | get (current : Option PlatformPool) (encPpid : String)
      (h : ⟨.getPlatformPool qeid pceid, current⟩ ∈ past)
      (hnew : cfg.isIntel = true → current = none) :
      Origin cfg past qeid pceid .get ⟨encPpid, "", current.map PlatformPool.credentials, true⟩
  | refetch (asked asked' : String) (pool : PlatformPool)
      (h : ⟨.getPlatformPool asked asked', some pool⟩ ∈ past) (hq : pool.qeId = qeid)
      (hp : pool.pceId = pceid) (hasked : Same qeid asked) (hasked' : Same pceid asked') :
      Origin cfg past qeid pceid .get
        ⟨pool.encPpid, pool.platformManifest, some pool.credentials, false⟩
  | register (current : Option PlatformPool) (encPpid platformManifest : String)
      (h : ⟨.getPlatformPool qeid pceid, current⟩ ∈ past) :
      Origin cfg past qeid pceid .other
        ⟨encPpid, platformManifest, current.map PlatformPool.credentials, false⟩

/-- The pool is one that a listing of the store has returned. -/
def Listed (past : Past) (pool : PlatformPool) : Prop :=
  ∃ pools : List PlatformPool, ⟨.listPlatformPools, pools⟩ ∈ past ∧ pool ∈ pools

/-- The PPID as a mirror is told it. -/
def toldPpid (encPpid : String) : Option String := if encPpid = "" then none else some encPpid

/-- Where a merged certificate comes from, with the PPID it was asked for with. -/
inductive Merged (cfg : Config) (past : Past) (qeid pceid : String) :
    Role → Option String → PlatformPublication → Prop
  | fill {role : Role} {context : PckFetchContext} (h : Origin cfg past qeid pceid role context) :
      Merged cfg past qeid pceid role (toldPpid context.encPpid) context.publication
  | refresh (pool : PlatformPool) (h : Listed past pool) (hq : pool.qeId = qeid)
      (hp : pool.pceId = pceid) :
      Merged cfg past qeid pceid .other (some pool.encPpid) (.observed (some pool.credentials))

/-- Reads of the store, of the memory of the process and of the upstream. -/
def Op.silent : Op → Bool
  | .selectPlatformCert _ _ _ _ => false
  | .storePckcerts _ _ _ _ _ _ => false
  | .publishRefreshed _ _ _ => false
  | .mergePckcert _ _ => false
  | .putPlatforms _ _ => false
  | .put _ => false
  | .saveUrl _ _ => false
  | .putNvidiaOcsp _ => false
  | .deleteKey _ => false
  | .sweepExpired _ => false
  | .spawnRefresh _ => false
  | _ => true

/-- The operations that write pools or records. -/
def Op.publishes : Op → Bool
  | .selectPlatformCert _ _ _ _ => true
  | .storePckcerts _ _ _ _ _ _ => true
  | .publishRefreshed _ _ _ => true
  | .mergePckcert _ _ => true
  | .putPlatforms _ _ => true
  | _ => false

/-- Neither a pool nor a record was written. -/
def Untouched (env : Env) (s s' : Database) : Prop :=
  ∃ batch : WriteBatch, s' = write s batch ∧ ∀ w ∈ batch, Inert env w

theorem Untouched.refl {env : Env} (s : Database) : Untouched env s s := ⟨[], rfl, by simp⟩

theorem Untouched.trans {env : Env} {s s₁ s' : Database} (h : Untouched env s s₁)
    (h' : Untouched env s₁ s') : Untouched env s s' := by
  obtain ⟨batch, rfl, hb⟩ := h
  obtain ⟨batch', rfl, hb'⟩ := h'
  exact ⟨batch ++ batch', (write_append _ _ _).symm, List.forall_mem_append.mpr ⟨hb, hb'⟩⟩

theorem Untouched.put {env : Env} {w : Write UInt8 Row} (h : Inert env w) (s : Database) :
    Untouched env s (write s [w]) := ⟨[w], rfl, by simpa using h⟩

theorem publishes_of_silent {o : Op} (h : o.silent = true) : o.publishes = false := by
  cases o <;> first | rfl | exact absurd h Bool.false_ne_true

theorem silent_same {env : Env} {cfg : Config} {s s' : Database} {o : Op} {r : o.Res}
    (h : o.silent = true) (hs : perform env cfg s o r s') : s' = s := by
  cases o <;> first | exact absurd h Bool.false_ne_true | exact hs.2 | exact hs

/-- Only the pools of a listing are handed to tasks. -/
def SpawnOk (name : String → Prop) (past : Past) : Op → Prop
  | .spawnRefresh pool => Listed past pool ∧ name pool.pceId
  | _ => True

theorem SpawnOk.mono {name : String → Prop} {past past' : Past} {o : Op}
    (hsub : past.Sublist past') (h : SpawnOk name past o) : SpawnOk name past' o := by
  cases o with
  | spawnRefresh pool =>
    obtain ⟨⟨pools, hmem, hpool⟩, hname⟩ := h
    exact ⟨⟨pools, hsub.subset hmem, hpool⟩, hname⟩
  | _ => trivial

/-- What is to hold of runs: which operations they perform, the invariant of the
store, the PCE IDs of platforms, the records a GET returns, and what is guaranteed
of every operation. -/
structure Policy (env : Env) (cfg : Config) where
  performs : Database → (o : Op) → o.Res → Database → Prop
  performed : ∀ {s o r s'}, performs s o r s' → perform env cfg s o r s'
  inv : Database → Prop
  name : String → Prop
  good : (qeid cpusvn pcesvn pceid : String) → PckCertRecord → Prop
  guar : Role → Past → Database → (o : Op) → o.Res → Database → Prop

section Publications

variable {env : Env} {recs : List PckCertRecord} {tcbs : List TcbRecord} {pool : PlatformPool}
  {k : List UInt8} {row : Row}

/-- The rows that a publication puts: records, TCB infos and its pool. -/
theorem put_of_publication (h : .put k row ∈ recs.map (putPckcert env) ++ tcbs.map (putTcb env) ++
    [putPlatformPool env pool]) :
    (∃ rec ∈ recs, row = .pckcert rec) ∨ (∃ rec, row = .tcb rec) ∨
      (k = Keys.platform env pool.qeId pool.pceId ∧ row = .platform pool) := by
  obtain h | h := List.mem_append.mp h
  · obtain h | h := List.mem_append.mp h
    · obtain ⟨rec, hrec, he⟩ := List.mem_map.mp h
      cases he
      exact .inl ⟨rec, hrec, rfl⟩
    · obtain ⟨rec, hrec, he⟩ := List.mem_map.mp h
      cases he
      exact .inr (.inl ⟨rec, rfl⟩)
  · cases List.mem_singleton.mp h
    exact .inr (.inr ⟨rfl, rfl⟩)

/-- The same without TCB infos. -/
theorem put_of_records (h : .put k row ∈ recs.map (putPckcert env) ++ [putPlatformPool env pool]) :
    (∃ rec ∈ recs, row = .pckcert rec) ∨
      (k = Keys.platform env pool.qeId pool.pceId ∧ row = .platform pool) := by
  have hput := @put_of_publication env recs [] pool k row (by simpa using h)
  obtain hrec | ⟨rec, hrow⟩ | hpool := hput
  · exact .inl hrec
  · simp [hrow, putPckcert, putPlatformPool] at h
  · exact .inr hpool

/-- The rows that a body puts for its platforms come from its entries. -/
theorem put_of_platforms {s : Database} {body : Value} {version : Nat} {batch : WriteBatch}
    (hok : Collateral.platformWrites env s body version = .ok batch) (h : .put k row ∈ batch) :
    ∃ pc ∈ Collateral.arrayMember (Collateral.collaterals body) "pck_certs",
      ∃ info tcbInfo selected, Collateral.entryInfo pc = .ok info ∧
        Collateral.entryTcbInfo body version info.fmspc = .ok tcbInfo ∧
        (Collateral.entryLevels env s body pc).mapM (Collateral.selectLevel pc
          (Collateral.entryPool env s body pc info) tcbInfo) = .ok selected ∧
        ((∃ x ∈ selected, row = .pckcert x.2) ∨
          (k = Keys.platform env (Collateral.entryPool env s body pc info).qeId
              (Collateral.entryPool env s body pc info).pceId ∧
            row = .platform { Collateral.entryPool env s body pc info with
              rawTcbs := selected.map Prod.fst })) := by
  obtain ⟨pc, hpc, own, hown, h⟩ := Collateral.mem_platformWrites hok h
  obtain ⟨info, tcbInfo, selected, hinfo, htcb, hselected, rfl⟩ := Collateral.entry_eq_ok hown
  refine ⟨pc, hpc, info, tcbInfo, selected, hinfo, htcb, hselected, ?_⟩
  have hrecs : selected.map (fun x => putPckcert env x.2) =
      (selected.map Prod.snd).map (putPckcert env) := by simp
  rw [hrecs] at h
  obtain ⟨rec, hrec, hrow⟩ | hrow := put_of_records h
  · obtain ⟨x, hx, rfl⟩ := List.mem_map.mp hrec
    exact .inl ⟨x, hx, hrow⟩
  · exact .inr hrow

theorem platforms_cases {s s' : Database} {body : Value} {version : Nat} {r : Except PccsError Unit}
    (h : (r, s') = commit s
      ((Collateral.platformWrites env s body version).map fun batch => ((), batch))) :
    s' = s ∨ ∃ batch, Collateral.platformWrites env s body version = .ok batch ∧
      s' = write s batch := by
  obtain ⟨e, _, _, hs⟩ | ⟨u, batch, hok, _, hs⟩ := commit_cases h
  · exact .inl hs
  · cases hwrites : Collateral.platformWrites env s body version with
    | error e => simp [hwrites, Except.map] at hok
    | ok own =>
      obtain rfl : own = batch := by simpa [hwrites, Except.map] using hok
      exact .inr ⟨own, rfl, hs⟩

end Publications

section Keeping

variable {env : Env} {cfg : Config} (P : Policy env cfg)

def Policy.keeps (role : Role) : Process.Keeps Op Op.Res Database where
  perform := P.performs
  inv := P.inv
  guar past s o r s' := SpawnOk P.name past o ∧ P.guar role past s o r s'

/-- What has to be shown of single operations. -/
structure Duties : Prop where
  name_congr : ∀ a b, Same a b → P.name a → P.name b
  good_congr : ∀ qeid qeid' pceid pceid' cpusvn pcesvn rec, Same qeid qeid' → Same pceid pceid' →
    P.good qeid cpusvn pcesvn pceid rec → P.good qeid' cpusvn pcesvn pceid' rec
  mono : ∀ role past past' s o (r : o.Res) s', past.Sublist past' → P.guar role past s o r s' →
    P.guar role past' s o r s'
  listed : ∀ s pool, P.inv s → pool ∈ listPlatformPools s → P.name pool.pceId
  hit : ∀ s qeid cpusvn pcesvn pceid rec, P.inv s →
    getPckcert env s qeid cpusvn pcesvn pceid = some rec → P.good qeid cpusvn pcesvn pceid rec
  untouched : ∀ role past s o (r : o.Res) s', o.publishes = false → P.inv s →
    Untouched env s s' → P.inv s' ∧ P.guar role past s o r s'
  select : ∀ role past s r s' qeid pceid cpusvn pcesvn, P.inv s → P.name pceid →
    P.performs s (.selectPlatformCert qeid pceid cpusvn pcesvn) r s' →
    P.inv s' ∧ P.guar role past s (.selectPlatformCert qeid pceid cpusvn pcesvn) r s' ∧
      ∀ rec, r = .ok rec → P.good qeid cpusvn pcesvn pceid rec
  store : ∀ role past before s r s' qeid pceid context pool resp tcbs requested, P.inv s →
    P.name pceid → Origin cfg before qeid pceid role context →
    (cfg.isIntel = true ∨ context.platformManifest ≠ "") →
    Answered env past before context.encPpid context.platformManifest pceid resp →
    pckcertPool qeid pceid context.encPpid context.platformManifest resp = .ok pool →
    P.performs s (.storePckcerts pceid context pool resp tcbs requested) r s' →
    P.inv s' ∧ P.guar role past s (.storePckcerts pceid context pool resp tcbs requested) r s' ∧
      ∀ rec, r = .ok (some rec) → ∃ level ∈ requested, P.good qeid level.1 level.2 pceid rec
  refreshed : ∀ past before s r s' pool resp fresh tcb, P.inv s → P.name pool.pceId →
    Listed before pool →
    Answered env past before pool.encPpid pool.platformManifest pool.pceId resp →
    pckcertPool pool.qeId pool.pceId pool.encPpid pool.platformManifest resp = .ok fresh →
    P.performs s (.publishRefreshed fresh pool.credentials tcb) r s' →
    P.inv s' ∧ P.guar .other past s (.publishRefreshed fresh pool.credentials tcb) r s'
  merge : cfg.isIntel = false → ∀ role past before s r s' qeid cpusvn pcesvn pceid encPpid http rec
    publication, P.inv s → P.name pceid →
    Merged cfg before qeid pceid role encPpid publication →
    Fetched past before (.pckcertPccs qeid cpusvn pcesvn pceid encPpid) http →
    parsePckcertPccs qeid cpusvn pcesvn pceid encPpid http = .ok rec →
    P.performs s (.mergePckcert rec publication) r s' →
    P.inv s' ∧ P.guar role past s (.mergePckcert rec publication) r s'
  mirror : cfg.isIntel = false → ∀ qeid cpusvn pcesvn pceid rec,
    P.good qeid cpusvn pcesvn pceid rec
  platforms : ∀ past s r s' body version, P.inv s →
    Validate.platformCollateral body version = .ok () →
    P.performs s (.putPlatforms body version) r s' →
    P.inv s' ∧ P.guar .other past s (.putPlatforms body version) r s'

end Keeping

section Operations

variable {env : Env} {cfg : Config} {P : Policy env cfg} {role : Role} {past : Past}

theorem spawnOk_of_silent {name : String → Prop} {o : Op} (h : o.silent = true) :
    SpawnOk name past o := by
  cases o with
  | spawnRefresh pool => cases h
  | _ => trivial

/-- A read: its result is one that some store with the invariant gives. -/
theorem safe_silent (hP : Duties P) {o : Op} (ho : o.silent = true) :
    Safe (P.keeps role)
      (fun past' r => past' = ⟨o, r⟩ :: past ∧ ∃ s, P.inv s ∧ perform env cfg s o r s) (act o)
      past := by
  refine safe_call fun s r s' hs hr => ?_
  have hperform := P.performed hr
  obtain rfl : s' = s := silent_same ho hperform
  obtain ⟨hinv, hguar⟩ := hP.untouched role past s' o r s' (publishes_of_silent ho) hs (.refl s')
  exact ⟨hinv, ⟨spawnOk_of_silent ho, hguar⟩, rfl, s', hs, hperform⟩

theorem safe_document (hP : Duties P) {w : Write UInt8 Row} (hw : Inert env w) :
    Safe (P.keeps role) (fun _ _ => True) (act (.put w)) past := by
  refine safe_call fun s r s' hs hr => ?_
  obtain rfl := P.performed hr
  obtain ⟨hinv, hguar⟩ := hP.untouched role past s (.put w) r _ rfl hs (.put hw s)
  exact ⟨hinv, ⟨trivial, hguar⟩, trivial⟩

/-- A loop of document writes. -/
theorem safe_documents (hP : Duties P) (ws : WriteBatch) (h : ∀ w ∈ ws, Inert env w) :
    Safe (P.keeps role) (fun _ _ => True) (collect (fun w => act (.put w)) ws) past := by
  induction ws generalizing past with
  | nil => trivial
  | cons w ws ih =>
    obtain ⟨hw, hws⟩ := List.forall_mem_cons.mp h
    exact safe_bind (safe_document hP hw) fun _ _ _ _ =>
      safe_bind (ih hws) fun _ _ _ _ => trivial

end Operations

section Upstream

variable {env : Env} {cfg : Config} {P : Policy env cfg} {role : Role} {past : Past}

/-- A success is an answer of the upstream. -/
theorem safe_get (hP : Duties P) (f : Fetch) :
    Safe (P.keeps role) (fun past' r => ∀ http, r = .ok http → Fetched past' past f http)
      (get cfg f) past := by
  unfold get
  split
  · refine safe_mono (safe_silent hP rfl) fun past' r _ hr http h => ?_
    rw [hr.1, h]
    exact List.Sublist.refl _
  · intro http h
    cases h

theorem Fetched.mono {past' before : Past} {f : Fetch} {http : HttpResponse}
    (hsub : past.Sublist past') (h : Fetched past before f http) : Fetched past' before f http :=
  List.Sublist.trans h hsub

/-- Fetch and parse. -/
theorem safe_fetch (hP : Duties P) {α : Type} (f : Fetch)
    (parse : HttpResponse → Except PccsError α) :
    Safe (P.keeps role) (fun past' r => ∀ a, r = .ok a →
      ∃ http, Fetched past' past f http ∧ parse http = .ok a)
      ((get cfg f).andThen fun r => settled (parse r)) past := by
  refine safe_andThen (safe_get hP f) (fun past' http _ hhttp => ?_) fun _ e _ _ a h => by cases h
  exact fun a ha => ⟨http, hhttp http rfl, ha⟩

theorem safe_fetchPool (hP : Duties P) (encPpid platformManifest pceid : String) :
    Safe (P.keeps role) (fun past' r => ∀ resp, r = .ok resp →
      Answered env past' past encPpid platformManifest pceid resp)
      (fetchPool env cfg encPpid platformManifest pceid) past := by
  by_cases hm : platformManifest = ""
  · have hfetch : poolFetch encPpid platformManifest pceid = .pckcertsIntel encPpid pceid := if_pos hm
    simp only [Answered, hfetch]
    rw [fetchPool, if_pos hm, fetchPckcertsIntel]
    split
    · intro resp h
      cases h
    · exact safe_fetch hP _ _
  · have hfetch : poolFetch encPpid platformManifest pceid =
        .pckcertsIntelManifest platformManifest pceid := if_neg hm
    simp only [Answered, hfetch]
    rw [fetchPool, if_neg hm, fetchPckcertsIntelManifest]
    exact safe_fetch hP _ _

theorem safe_fetchTcb (hP : Duties P) (prodType : Nat) (fmspc : String) (version : Nat)
    (update : UpdateType) :
    Safe (P.keeps role) (fun _ _ => True) (fetchTcb env cfg prodType fmspc version update)
      past := by
  unfold fetchTcb
  split
  · trivial
  · exact safe_mono (safe_fetch hP _ _) fun _ _ _ _ => trivial

theorem safe_fetchIdentity (hP : Duties P) (enclaveId version : Nat) (update : UpdateType) :
    Safe (P.keeps role) (fun _ _ => True) (fetchIdentity env cfg enclaveId version update)
      past := by
  unfold fetchIdentity
  split
  · trivial
  · exact safe_mono (safe_fetch hP _ _) fun _ _ _ _ => trivial

theorem safe_fetchPckcrl (hP : Duties P) (ca : String) :
    Safe (P.keeps role) (fun _ _ => True) (fetchPckcrl cfg ca) past :=
  safe_mono (safe_fetch hP _ _) fun _ _ _ _ => trivial

theorem safe_fetchRootcacrl (hP : Duties P) :
    Safe (P.keeps role) (fun _ _ => True) (fetchRootcacrl cfg) past :=
  safe_mono (safe_fetch hP _ _) fun _ _ _ _ => trivial

theorem safe_fetchCrl (hP : Duties P) (uri : String) :
    Safe (P.keeps role) (fun _ _ => True) (fetchCrl cfg uri) past := by
  have hcheck : Safe (P.keeps role) (fun _ _ => True) (settled (checkV3 uri)) past := trivial
  refine safe_andThen hcheck (fun past' _ _ _ => ?_) fun _ _ _ _ => trivial
  exact safe_mono (safe_fetch hP _ _) fun _ _ _ _ => trivial

end Upstream

section Fill

variable {env : Env} {cfg : Config} {P : Policy env cfg} {role : Role} {past : Past}

theorem inert_registerPlatform (env : Env) (p : RegisteredPlatform) :
    Inert env (registerPlatform env p) :=
  inert_put (by decide) (by decide) (by simp) (by simp)

theorem inert_deleteRegistered (env : Env) (p : RegisteredPlatform) :
    Inert env (deleteRegistered env p) where
  notPckcert _ _ _ _ := Keys.under_ne (by decide) _ _
  notPlatform _ _ := Keys.under_ne (by decide) _ _
  noPool _ := nofun
  noRecord _ := nofun

theorem safe_processNotAvailable (hP : Duties P)
    (qeid pceid encPpid platformManifest : String) (resp : PckCertsResponse) :
    Safe (P.keeps role) (fun _ _ => True)
      (processNotAvailable env cfg qeid pceid encPpid platformManifest resp) past := by
  unfold processNotAvailable
  split
  · refine safe_bind (safe_collect _ fun p _ past' _ => ?_) fun _ _ _ _ => trivial
    exact safe_document hP (inert_registerPlatform env p)
  · trivial

theorem safe_validatePool (hP : Duties P)
    (qeid pceid encPpid platformManifest : String) (resp : PckCertsResponse) :
    Safe (P.keeps role) (fun _ r => ∀ pool, r = .ok pool →
      pckcertPool qeid pceid encPpid platformManifest resp = .ok pool)
      (validatePool env cfg qeid pceid encPpid platformManifest resp) past := by
  refine safe_bind (safe_processNotAvailable hP qeid pceid encPpid platformManifest resp) ?_
  exact fun _ _ _ _ _ h => h

theorem safe_fetchTcbInfos (hP : Duties P) (fmspc : String) :
    Safe (P.keeps role) (fun _ _ => True) (fetchTcbInfos env cfg fmspc) past := by
  refine safe_bind (safe_collect _ fun w _ past' _ => ?_) fun _ _ _ _ => trivial
  exact safe_bind (safe_fetchTcb hP _ _ _ _) fun _ _ _ _ => trivial

theorem Answered.mono {past' before : Past} (hsub : past.Sublist past')
    {encPpid platformManifest pceid : String} {resp : PckCertsResponse}
    (h : Answered env past before encPpid platformManifest pceid resp) :
    Answered env past' before encPpid platformManifest pceid resp := by
  obtain ⟨http, hfetched, hparse⟩ := h
  exact ⟨http, hfetched.mono hsub, hparse⟩

/-- The record that a fill returns is for the level it was asked for. -/
def FillGood (P : Policy env cfg) (qeid pceid : String) (requested : Option (String × String))
    (r : Except PccsError (Option PckCertRecord)) : Prop :=
  ∀ rec, r = .ok (some rec) → ∃ level ∈ requested, P.good qeid level.1 level.2 pceid rec

theorem safe_publishPckcerts (hP : Duties P) {before : Past} {qeid pceid : String}
    {context : PckFetchContext} {resp : PckCertsResponse} (requested : Option (String × String))
    (hname : P.name pceid) (horigin : Origin cfg before qeid pceid role context)
    (hsource : cfg.isIntel = true ∨ context.platformManifest ≠ "")
    (hresp : Answered env past before context.encPpid context.platformManifest pceid resp) :
    Safe (P.keeps role) (fun _ r => FillGood P qeid pceid requested r)
      (publishPckcerts env cfg qeid pceid context resp requested) past := by
  refine safe_andThen (safe_validatePool hP _ _ _ _ _) (fun past₁ pool hsub₁ hpool => ?_)
    fun _ _ _ _ _ h => by cases h
  refine safe_andThen (safe_fetchTcbInfos hP _) (fun past₂ tcbs hsub₂ _ => ?_)
    fun _ _ _ _ _ h => by cases h
  refine safe_call fun s r s' hs hr => ?_
  obtain ⟨hinv, hguar, hgood⟩ := hP.store role past₂ before s r s' qeid pceid context pool resp tcbs
    requested hs hname horigin hsource (hresp.mono (hsub₁.trans hsub₂)) (hpool pool rfl) hr
  exact ⟨hinv, ⟨trivial, hguar⟩, hgood⟩

theorem safe_fillFromMirror (hP : Duties P) (hmirror : cfg.isIntel = false)
    {qeid pceid : String} (cpusvn pcesvn : String) {context : PckFetchContext}
    (hname : P.name pceid) (horigin : Origin cfg past qeid pceid role context) :
    Safe (P.keeps role) (fun _ _ => True)
      (fillFromMirror cfg qeid cpusvn pcesvn pceid context) past := by
  refine safe_andThen (safe_fetch hP _ _) (fun past₁ rec hsub₁ hrec => ?_) fun _ _ _ _ => trivial
  obtain ⟨http, hhttp, hparse⟩ := hrec rec rfl
  have hmerge : Safe (P.keeps role) (fun _ _ => True)
      (act (.mergePckcert rec context.publication)) past₁ := by
    refine safe_call fun s r s' hs hr => ?_
    obtain ⟨hinv, hguar⟩ := hP.merge hmirror role past₁ past s r s' qeid cpusvn pcesvn pceid _ http
      rec _ hs hname (.fill horigin) hhttp hparse hr
    exact ⟨hinv, ⟨trivial, hguar⟩, trivial⟩
  split
  · exact safe_andThen hmerge (fun _ _ _ _ => trivial) fun _ _ _ _ => trivial
  · trivial

theorem safe_fillPckcert (hP : Duties P) {qeid pceid : String} (cpusvn pcesvn : String)
    {context : PckFetchContext} (hname : P.name pceid)
    (horigin : Origin cfg past qeid pceid role context) :
    Safe (P.keeps role)
      (fun _ r => ∀ rec, r = .ok (some rec) → P.good qeid cpusvn pcesvn pceid rec)
      (fillPckcert env cfg qeid cpusvn pcesvn pceid context) past := by
  unfold fillPckcert
  split
  · intro rec h
    cases h
  split
  · intro rec h
    cases h
  split
  · rename_i hmirror
    refine safe_mono (safe_fillFromMirror hP hmirror.1 cpusvn pcesvn hname horigin) ?_
    exact fun _ _ _ _ rec _ => hP.mirror hmirror.1 qeid cpusvn pcesvn pceid rec
  · rename_i hpool
    have hsource : cfg.isIntel = true ∨ context.platformManifest ≠ "" := by
      cases hintel : cfg.isIntel with
      | true => exact .inl rfl
      | false => exact .inr fun hm => hpool ⟨hintel, hm⟩
    refine safe_andThen (safe_fetchPool hP _ _ _) (fun past₁ resp hsub₁ hresp => ?_)
      fun _ _ _ _ _ h => by cases h
    refine safe_mono (safe_publishPckcerts hP _ hname horigin hsource (hresp resp rfl)) ?_
    intro _ r _ hgood rec hr
    obtain ⟨level, hlevel, hrec⟩ := hgood rec hr
    unfold requestedLevel at hlevel
    split at hlevel
    · cases hlevel
    · cases hlevel
      exact hrec

end Fill

end Pccs.Cache
