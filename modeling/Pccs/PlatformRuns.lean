import Pccs.ImportCoherence
import Pccs.Runs

/-!
# Runs of the platform writers

The store starts empty or imported and then takes any number of publications.
Each of them is one step under the platform lock; what it is given are the
answers of the upstream, a checked request, or a pool that an earlier listing
of the store has handed out.
-/
namespace Pccs.PlatformRuns

open Text Json Fallible KeyValue Store Cache Coherence Runs

/-- The database and the pools that refreshes have listed and still work on. -/
structure State where
  db : Database
  listed : List PlatformPool

inductive Start (env : Env) : State → Prop
  | empty : Start env ⟨∅, []⟩
  | imported (tables : IntelImport.Tables) (db : Database)
      (h : IntelImport.convert env tables = .ok db) : Start env ⟨db, []⟩

/-- The platform and level a mirror is asked for: those of a checked GET, of a
checked registration, or of a listed pool. -/
inductive Asked (s : State) : String → String → String → String → Prop
  | query (params : String → Option String) (q : Validate.PckcertQuery)
      (h : Validate.pckcertQuery params = .ok q) : Asked s q.qeid q.cpusvn q.pcesvn q.pceid
  | registered (body : Value) (p : Validate.PlatformReg) (h : Validate.platformReg body = .ok p) :
      Asked s p.qeId p.cpuSvn p.pceSvn p.pceId
  | listed (pool : PlatformPool) (raw : RawTcb) (hp : pool ∈ s.listed) (hr : raw ∈ pool.rawTcbs) :
      Asked s pool.qeId raw.cpuSvn raw.pceSvn pool.pceId

inductive Step (env : Env) (s : State) : State → Prop
  | list : Step env s { s with listed := s.listed ++ listPlatformPools s.db }
  | select (pcsVersion : Nat) (qeid cpusvn pcesvn pceid : String) :
      Step env s { s with
        db := (commit s.db (selectPlatformCert env s.db qeid pceid true fun pool =>
          selectFromPool env s.db pcsVersion pool cpusvn pcesvn pceid)).2 }
  | fill (mode : CacheMode) (qeid pceid : String) (context : PckFetchContext)
      (resp : PckCertsResponse) (pool : PlatformPool) (tcbs : List TcbRecord)
      (requested : Option (String × String))
      (hpool : pckcertPool qeid pceid context.encPpid context.platformManifest resp = .ok pool) :
      Step env s { s with
        db := (commit s.db (storePckcerts env s.db mode pceid context pool resp tcbs requested)).2 }
  | refresh (pool : PlatformPool) (resp : PckCertsResponse) (fresh : PlatformPool) (tcb : TcbRecord)
      (hlisted : pool ∈ s.listed)
      (hfresh : pckcertPool pool.qeId pool.pceId pool.encPpid pool.platformManifest resp = .ok fresh) :
      Step env s { s with
        db := (commit s.db (publishRefreshed env s.db fresh pool.credentials tcb)).2 }
  | merge (qeid cpusvn pcesvn pceid : String) (encPpid : Option String) (r : HttpResponse)
      (rec : PckCertRecord) (publication : PlatformPublication)
      (hasked : Asked s qeid cpusvn pcesvn pceid)
      (hrec : parsePckcertPccs qeid cpusvn pcesvn pceid encPpid r = .ok rec)
      (hcache : cacheable rec.issuerChain = true) :
      Step env s { s with db := (commit s.db (mergePckcertAfterFetch env s.db rec publication)).2 }
  | put (body : Value) (version : Nat) :
      Step env s { s with db := (Collateral.putPlatformCollateral env s.db body version).2 }

structure Inv (env : Env) (s : State) : Prop where
  coherent : Coherent env s.db
  listed : ∀ pool ∈ s.listed, NoSlash pool.pceId ∧ ∀ r ∈ pool.rawTcbs, LevelOk r

section Steps

variable {env : Env} {db : Database} {s : State}

/-- An operation that publishes or fails keeps the views coherent. -/
theorem commit_coherent (hinj : Function.Injective env.hash128Hex) (h : Coherent env db) {α : Type}
    {r : Except PccsError (α × WriteBatch)}
    (hr : ∀ a batch, r = .ok (a, batch) → ∃ p : Publication env db, batch = p.batch) :
    Coherent env (commit db r).2 ∧ Keeps db (commit db r).2 := by
  cases hcase : r with
  | error e => exact ⟨h, Keeps.refl db⟩
  | ok out =>
    obtain ⟨p, hp⟩ := hr out.1 out.2 hcase
    change Coherent env (write db out.2) ∧ Keeps db (write db out.2)
    rw [hp]
    exact ⟨p.coherent_after hinj h, p.keeps_after h⟩

theorem select_coherent (hinj : Function.Injective env.hash128Hex) (h : Coherent env db)
    (pcsVersion : Nat) (qeid cpusvn pcesvn pceid : String) :
    let r := commit db (selectPlatformCert env db qeid pceid true fun pool =>
      selectFromPool env db pcsVersion pool cpusvn pcesvn pceid)
    Coherent env r.2 ∧ Keeps db r.2 := by
  apply commit_coherent hinj h
  intro rec batch hok
  refine select_publication hinj h ?_ hok
  intro pool rec hrec
  obtain ⟨_, _, hrec⟩ := bind_eq_ok.mp hrec
  obtain ⟨tcb, _, hrec⟩ := bind_eq_ok.mp hrec
  obtain ⟨hm, hl, _⟩ := selected_matches hrec
  exact ⟨hm, hl⟩

/-- The PCEID of a checked pool is read off its certificates. -/
theorem noSlash_of_checked {pceid fmspc : String} {certs : List (String × String)}
    (hne : certs ≠ []) (h : Selection.PoolChecked pceid fmspc certs) :
    NoSlash (toAsciiUppercase pceid) := by
  obtain ⟨c, hc⟩ := List.exists_mem_of_ne_nil certs hne
  obtain ⟨info, hinfo, _, hpce, _⟩ := h.parses c hc
  exact hpce ▸ PckCert.parsePckCert_pceId hinfo

theorem fill_coherent (hinj : Function.Injective env.hash128Hex) (h : Coherent env db)
    {mode : CacheMode} {qeid pceid : String} {context : PckFetchContext} {resp : PckCertsResponse}
    {pool : PlatformPool} {tcbs : List TcbRecord} {requested : Option (String × String)}
    (hpool : pckcertPool qeid pceid context.encPpid context.platformManifest resp = .ok pool) :
    let r := commit db (storePckcerts env db mode pceid context pool resp tcbs requested)
    Coherent env r.2 ∧ Keeps db r.2 := by
  apply commit_coherent hinj h
  intro selected batch hok
  obtain ⟨tcb, hstage, hreplace⟩ := storePckcerts_eq_ok hok
  obtain ⟨fmspc, _, hchecked⟩ := stagePckcerts_checked hstage
  obtain ⟨hne, hpool⟩ := pckcertPool_eq_ok hpool
  have hslash : NoSlash pool.pceId := by
    have := noSlash_of_checked (by simpa [hpool, PlatformPool.certPairs] using hne) hchecked
    rw [hpool]
    exact this
  refine replace_publication hinj h hslash ?_ ?_ hreplace
  · intro raw rec hrec
    obtain ⟨hm, _, hl⟩ := selected_matches hrec
    exact ⟨hm, hl⟩
  · intro rec hrec
    obtain ⟨level, _, hrec⟩ := (stagePckcerts_eq_ok hstage).2.2 rec (mem_persistSelected hrec)
    obtain ⟨hm, hl, _⟩ := selected_matches hrec
    exact ⟨hm, hl⟩

/-- A refresh expects the platform it listed, so its PCEID is that of a stored
one. -/
theorem refresh_coherent (hinj : Function.Injective env.hash128Hex) (h : Coherent env db)
    (fresh : PlatformPool) (expected : PlatformCredentials) (tcb : TcbRecord) :
    let r := commit db (publishRefreshed env db fresh expected tcb)
    Coherent env r.2 ∧ Keeps db r.2 := by
  apply commit_coherent hinj h
  intro u batch hok
  have hslash : NoSlash fresh.pceId := by
    obtain ⟨_, hguard, _⟩ := bind_eq_ok.mp hok
    have hguard := reject_eq_ok.mp hguard
    cases hpool : getPlatformPool env db fresh.qeId fresh.pceId with
    | none => simp [hpool, publicationMatches] at hguard
    | some pool =>
      exact (noSlash_congr (getPlatformPool_eq_some.mp hpool).2.2).mp (h.served hpool).pceid
  unfold publishRefreshed replacePlatformCertsWithSelection at hok
  refine replace_publication hinj h hslash ?_ (by simp) hok
  intro raw rec hrec
  obtain ⟨hm, _, hl⟩ := selected_matches hrec
  exact ⟨hm, hl⟩

theorem asked_noSlash (h : Inv env s) {qeid cpusvn pcesvn pceid : String}
    (hasked : Asked s qeid cpusvn pcesvn pceid) :
    NoSlash cpusvn ∧ NoSlash pcesvn ∧ NoSlash pceid := by
  cases hasked with
  | query params q hq =>
    obtain ⟨hc, hs, hp⟩ := Validate.pckcertQuery_hex hq
    exact ⟨Validate.noSlash_of_isHex hc, Validate.noSlash_of_isHex hs, Validate.noSlash_of_isHex hp⟩
  | registered body p hreg =>
    obtain ⟨hp, hc, hs⟩ := Validate.platformReg_hex hreg
    exact ⟨Validate.noSlash_of_isHexOrEmpty hc, Validate.noSlash_of_isHexOrEmpty hs,
      Validate.noSlash_of_isHex hp⟩
  | listed pool raw hp hr =>
    obtain ⟨hpce, hl⟩ := h.listed pool hp
    exact ⟨(hl raw hr).cpuNoSlash, (hl raw hr).pceNoSlash, hpce⟩

theorem merge_coherent (hinj : Function.Injective env.hash128Hex) (h : Inv env s)
    {qeid cpusvn pcesvn pceid : String} {encPpid : Option String} {r : HttpResponse}
    {rec : PckCertRecord} (publication : PlatformPublication)
    (hasked : Asked s qeid cpusvn pcesvn pceid)
    (hrec : parsePckcertPccs qeid cpusvn pcesvn pceid encPpid r = .ok rec) :
    let r := commit s.db (mergePckcertAfterFetch env s.db rec publication)
    Coherent env r.2 ∧ Keeps s.db r.2 := by
  apply commit_coherent hinj h.coherent
  intro u batch hok
  obtain ⟨hc, hs, hp⟩ := asked_noSlash h hasked
  obtain ⟨hpce, hcpu, hsvn⟩ := parsePckcertPccs_eq_ok hrec
  refine merge_publication hinj h.coherent ?_ ?_ ?_ hok
  · rw [hpce]; exact (noSlash_congr (same_uppercase _)).mp hp
  · rw [hcpu]; exact (noSlash_congr (same_uppercase _)).mp hc
  · rw [hsvn]; exact (noSlash_congr (same_uppercase _)).mp hs

/-- One step: the views stay coherent and no level is dropped. -/
theorem step_coherent (hinj : Function.Injective env.hash128Hex) (h : Inv env s) {s' : State}
    (hstep : Step env s s') : Coherent env s'.db ∧ Keeps s.db s'.db := by
  cases hstep with
  | list => exact ⟨h.coherent, Keeps.refl _⟩
  | select => exact select_coherent hinj h.coherent _ _ _ _ _
  | fill _ _ _ _ _ _ _ _ hpool => exact fill_coherent hinj h.coherent hpool
  | refresh => exact refresh_coherent hinj h.coherent _ _ _
  | merge _ _ _ _ _ _ _ publication hasked hrec =>
    exact merge_coherent hinj h publication hasked hrec
  | put body version => exact put_coherent hinj h.coherent body version

theorem mem_listPlatformPools {pool : PlatformPool} (h : pool ∈ listPlatformPools db) :
    ∃ key : List UInt8, db[key]? = some (.platform pool) := by
  obtain ⟨⟨key, row⟩, hrow, hpool⟩ := List.mem_filterMap.mp h
  have hget := ((mem_scanPrefix db _ key row).mp hrow).1
  cases row <;> cases hpool
  exact ⟨key, hget⟩

theorem inv_step (hinj : Function.Injective env.hash128Hex) (s s' : State) (h : Inv env s)
    (hstep : Step env s s') : Inv env s' := by
  refine ⟨(step_coherent hinj h hstep).1, ?_⟩
  cases hstep with
  | list =>
    intro pool hpool
    rcases List.mem_append.mp hpool with hpool | hpool
    · exact h.listed pool hpool
    · obtain ⟨key, hkey⟩ := mem_listPlatformPools hpool
      have hserved := (h.coherent.pools key pool hkey).2
      exact ⟨hserved.pceid, hserved.level⟩
  | _ => exact h.listed

theorem inv_start (hinj : Function.Injective env.hash128Hex) (s : State) (h : Start env s) :
    Inv env s := by
  cases h with
  | empty => exact ⟨⟨by simp, by simp⟩, by simp⟩
  | imported tables db hdb => exact ⟨IntelImport.convert_coherent hinj hdb, by simp⟩

end Steps

/-- What a client may rely on for a stored platform: listed levels are distinct,
a level is listed exactly if it is served, and what is served is the pool's. -/
structure Agree (env : Env) (db : Database) (pool : PlatformPool) : Prop where
  distinct : pool.rawTcbs.Pairwise fun r t => sameLevel r t.cpuSvn t.pceSvn = false
  listed : ∀ cpusvn pcesvn, (∃ r ∈ pool.rawTcbs, sameLevel r cpusvn pcesvn = true) ↔
    (getPckcert env db pool.qeId cpusvn pcesvn pool.pceId).isSome = true
  record : ∀ r ∈ pool.rawTcbs, ∀ rec,
    getPckcert env db pool.qeId r.cpuSvn r.pceSvn pool.pceId = some rec →
    eqIgnoreAsciiCase rec.tcbm r.tcbm = true ∧
    (∃ c ∈ pool.certs, eqIgnoreAsciiCase c.tcbm rec.tcbm = true ∧ c.cert = rec.cert) ∧
    eqIgnoreAsciiCase rec.fmspc pool.fmspc = true ∧ eqIgnoreAsciiCase rec.ca pool.ca = true ∧
    rec.issuerChain = pool.issuerChain ∧ rec.encryptedPpid = pool.storedPpid ∧
    rec.platformManifest = pool.platformManifest

theorem agree_of_coherent {env : Env} {db : Database} (h : Coherent env db) {key : List UInt8}
    {pool : PlatformPool} (hpool : db[key]? = some (.platform pool)) : Agree env db pool where
  distinct := by
    refine (h.pools key pool hpool).2.distinct.imp fun hne => ?_
    exact Bool.eq_false_iff.mpr fun hsame => hne (sameLevel_iff.mp hsame)
  listed cpusvn pcesvn := by
    obtain ⟨rfl, hs⟩ := h.pools key pool hpool
    constructor
    · rintro ⟨r, hr, hsame⟩
      obtain ⟨hc, hp⟩ : Same r.cpuSvn cpusvn ∧ Same r.pceSvn pcesvn := by
        simpa [sameLevel, Same] using hsame
      obtain ⟨rec, hrec, hm⟩ := hs.record r hr
      refine Option.isSome_iff_exists.mpr ⟨rec, getPckcert_eq_some.mpr ⟨?_, hm.qeid, hm.pceid,
        hm.cpusvn.trans hc, hm.pcesvn.trans hp⟩⟩
      rw [← hrec]
      exact congrArg (db[·]?) (Keys.pckcert_congr rfl rfl hc.symm hp.symm)
    · intro hsome
      obtain ⟨rec, hrec⟩ := Option.isSome_iff_exists.mp hsome
      obtain ⟨hrow, hq, hp, hc, hsvn⟩ := getPckcert_eq_some.mp hrec
      obtain ⟨_, pool', hpool', _, _, r, hr, hrc, hrs⟩ := h.records _ rec hrow
      -- the platform of the record is this one
      rw [Keys.platform_congr hq hp, hpool] at hpool'
      cases hpool'
      exact ⟨r, hr, by simpa [sameLevel, Same] using ⟨hrc.trans hc, hrs.trans hsvn⟩⟩
  record r hr rec hrec := by
    obtain ⟨rec', hrec', hm⟩ := (h.pools key pool hpool).2.record r hr
    cases (getPckcert_eq_some.mp hrec).1.symm.trans hrec'
    obtain ⟨c, hc, hct, hcc⟩ := hm.cert
    exact ⟨(eqIgnoreAsciiCase_iff _ _).mpr hm.tcbm,
      ⟨c, hc, (eqIgnoreAsciiCase_iff _ _).mpr hct, hcc⟩, (eqIgnoreAsciiCase_iff _ _).mpr hm.fmspc,
      (eqIgnoreAsciiCase_iff _ _).mpr hm.ca, hm.issuerChain, hm.encryptedPpid, hm.platformManifest⟩

/-- In every reachable store pools and GET records agree, and no step from it
drops a raw level. -/
theorem pools_and_records_agree {env : Env} (hinj : Function.Injective env.hash128Hex) {s : State}
    (h : Reachable (Start env) (Step env) s) :
    (∀ (key : List UInt8) (pool : PlatformPool), s.db[key]? = some (.platform pool) →
      Agree env s.db pool) ∧
    ∀ s', Step env s s' → ∀ (key : List UInt8) (pool : PlatformPool),
      s.db[key]? = some (.platform pool) → ∃ pool', s'.db[key]? = some (.platform pool') ∧
        ∀ r ∈ pool.rawTcbs, ∃ r' ∈ pool'.rawTcbs, sameLevel r r'.cpuSvn r'.pceSvn = true := by
  have hinv : Inv env s := invariant (inv_start hinj) (inv_step hinj) h
  refine ⟨fun key pool hpool => agree_of_coherent hinv.coherent hpool, ?_⟩
  intro s' hstep key pool hpool
  obtain ⟨pool', hpool', hkeeps⟩ := (step_coherent hinj hinv hstep).2 key pool hpool
  refine ⟨pool', hpool', fun r hr => ?_⟩
  obtain ⟨r', hr', hsame⟩ := hkeeps r hr
  exact ⟨r', hr', sameLevel_iff.mpr hsame⟩

def mirrorQuery : Validate.PckcertQuery :=
  ⟨"A1", "00000000000000000000000000000000", "0000", "0000", none⟩

def mirrorParams (name : String) : Option String :=
  [("qeid", "a1"), ("cpusvn", "00000000000000000000000000000000"), ("pcesvn", "0000"),
    ("pceid", "0000")].lookup name

def mirrorAnswer : HttpResponse where
  status := 200
  headers := [("sgx-tcbm", asBytes "0a"), ("sgx-fmspc", asBytes "90"),
    ("sgx-pck-certificate-ca-type", asBytes "platform"),
    ("sgx-pck-certificate-issuer-chain", asBytes "chain")]
  body := asBytes "cert"

def mirrorRecord : PckCertRecord :=
  { qeid := "A1", pceid := "0000", cpusvn := "00000000000000000000000000000000", pcesvn := "0000",
    cert := "cert", tcbm := "0A", fmspc := "90", ca := "PLATFORM", issuerChain := "chain",
    encryptedPpid := none, platformManifest := "" }

def mirrorPool : PlatformPool :=
  { qeId := "A1", pceId := "0000", fmspc := "90", ca := "PLATFORM", issuerChain := "chain",
    certs := [⟨"0A", "cert"⟩],
    rawTcbs := [⟨"00000000000000000000000000000000", "0000", "0A"⟩] }

/-- The empty store after a mirror has answered one GET. -/
def mirrored : State :=
  ⟨(commit ∅ (mergePckcertAfterFetch Keys.plainEnv ∅ mirrorRecord (.absentGet "" ""))).2, []⟩

theorem mirrored_reachable : Reachable (Start Keys.plainEnv) (Step Keys.plainEnv) mirrored := by
  have hquery : Validate.pckcertQuery mirrorParams = .ok mirrorQuery := rfl
  have hrec : parsePckcertPccs "A1" mirrorQuery.cpusvn "0000" "0000" none mirrorAnswer =
      .ok mirrorRecord := rfl
  refine reachable_step (reachable_start .empty) ?_
  exact .merge _ _ _ _ none mirrorAnswer mirrorRecord (.absentGet "" "")
    (.query mirrorParams mirrorQuery hquery) hrec (by decide)

theorem mirrored_db : mirrored.db =
    write ∅ [putPckcert Keys.plainEnv mirrorRecord, putPlatformPool Keys.plainEnv mirrorPool] := by
  have hempty : getPlatformPool Keys.plainEnv ∅ mirrorRecord.qeid mirrorRecord.pceid = none := by
    simp [getPlatformPool]
  have hidentity : identityConflict (startPool none mirrorRecord) mirrorRecord = false := by decide
  have hmetadata : metadataConflict (startPool none mirrorRecord) mirrorRecord = false := by decide
  have hmerge : mergePckcertAfterFetch Keys.plainEnv ∅ mirrorRecord (.absentGet "" "") =
      .ok ((), [putPckcert Keys.plainEnv mirrorRecord, putPlatformPool Keys.plainEnv mirrorPool]) := by
    unfold mergePckcertAfterFetch
    rw [hempty]
    simp only [hidentity, hmetadata]
    rfl
  simp only [mirrored, hmerge]
  rfl

theorem mirrored_row :
    mirrored.db[Keys.platform Keys.plainEnv "A1" "0000"]? = some (.platform mirrorPool) := by
  rw [mirrored_db]
  exact get_write_last ∅ [putPckcert Keys.plainEnv mirrorRecord] []
    (putPlatformPool Keys.plainEnv mirrorPool) (by simp)

/-- A level whose certificate is another one. -/
def secondRecord : PckCertRecord :=
  { mirrorRecord with cpusvn := "00000000000000000000000000000001", cert := "cert2", tcbm := "0B" }

/-- The mirror has answered a GET of the second level as well. -/
def mirroredTwice : State :=
  ⟨(commit mirrored.db (mergePckcertAfterFetch Keys.plainEnv mirrored.db secondRecord
    (.observed (some mirrorPool.credentials)))).2, []⟩

theorem step_mirroredTwice : Step Keys.plainEnv mirrored mirroredTwice := by
  have hquery : Validate.pckcertQuery (fun name => if name = "cpusvn" then
      some "00000000000000000000000000000001" else mirrorParams name) =
      .ok { mirrorQuery with cpusvn := "00000000000000000000000000000001" } := rfl
  have hrec : parsePckcertPccs "A1" "00000000000000000000000000000001" "0000" "0000" none
      { mirrorAnswer with
        headers := ("sgx-tcbm", asBytes "0b") :: mirrorAnswer.headers, body := asBytes "cert2" } =
      .ok secondRecord := rfl
  exact .merge _ _ _ _ none _ secondRecord _ (.query _ _ hquery) hrec (by decide)

/-- Both levels are in the pool, and their records agree with it. -/
theorem pools_and_records_agree_mirroredTwice :
    ∃ pool, mirroredTwice.db[Keys.platform Keys.plainEnv "A1" "0000"]? = some (.platform pool) ∧
      Agree Keys.plainEnv mirroredTwice.db pool ∧
      pool.rawTcbs = [⟨"00000000000000000000000000000000", "0000", "0A"⟩,
        ⟨"00000000000000000000000000000001", "0000", "0B"⟩] ∧
      ∀ r ∈ mirrorPool.rawTcbs, ∃ r' ∈ pool.rawTcbs, sameLevel r r'.cpuSvn r'.pceSvn = true := by
  obtain ⟨pool, hpool, hkeeps⟩ := (pools_and_records_agree Keys.plainEnv_injective
    mirrored_reachable).2 _ step_mirroredTwice _ _ mirrored_row
  refine ⟨pool, hpool, (pools_and_records_agree Keys.plainEnv_injective
    (reachable_step mirrored_reachable step_mirroredTwice)).1 _ _ hpool, ?_, hkeeps⟩
  have hlevels : (mirroredTwice.db[Keys.platform Keys.plainEnv "A1" "0000"]?.bind rowPlatform).map
      PlatformPool.rawTcbs = some [⟨"00000000000000000000000000000000", "0000", "0A"⟩,
        ⟨"00000000000000000000000000000001", "0000", "0B"⟩] := by
    decide +kernel
  rw [hpool] at hlevels
  exact Option.some.inj hlevels

end Pccs.PlatformRuns
