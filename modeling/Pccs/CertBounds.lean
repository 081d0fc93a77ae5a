import Pccs.LossyText
import Pccs.Manifests
import Pccs.RequestRules
import Pccs.SelectionOrder

/-!
# Served certificates stay within the request

A record is selected by one request and served to others, from the store or
straight from a fill, and selected again whenever its pool is replaced. At every
point it is at or below the level that it is stored for, so that whatever a GET
returns is at or below the level it asked for.
-/
namespace Pccs.Cache

open Text Encoding Json Fallible KeyValue PccsError Store Selection Process Runs Coherence

/-- The record answers the request: its platform, and a certificate of that
platform at or below the level asked for. -/
structure ServedFor (qeid cpusvn pcesvn pceid : String) (rec : PckCertRecord) : Prop where
  ofQe : Same rec.qeid qeid
  ofPce : Same rec.pceid pceid
  within : CertWithin pceid cpusvn pcesvn rec.cert

/-- A record answers the level it is stored for. -/
def RowWithin : Row → Prop
  | .pckcert rec => CertWithin rec.pceid rec.cpusvn rec.pcesvn rec.cert
  | _ => True

section Writers

variable {env : Env} {cfg : Config} {s s' : Database}

/-- Letter case says nothing about a level. -/
theorem certWithin_congr {pceid pceid' cpusvn cpusvn' pcesvn pcesvn' cert : String}
    (hpce : Same pceid pceid') (hcpu : Same cpusvn cpusvn') (hsvn : Same pcesvn pcesvn')
    (h : CertWithin pceid cpusvn pcesvn cert) : CertWithin pceid' cpusvn' pcesvn' cert := by
  obtain ⟨info, tcb, raw, hinfo, hid, htcb, hraw, hle⟩ := h
  refine ⟨info, tcb, raw, hinfo, ?_, htcb, ?_, hle⟩
  · rw [hid]
    exact (uppercase_eq_iff _ _).mpr hpce
  · rw [← Tcb.fromHex_uppercase_iff, ← (uppercase_eq_iff _ _).mpr hcpu,
      ← (uppercase_eq_iff _ _).mpr hsvn, Tcb.fromHex_uppercase_iff]
    exact hraw

theorem ServedFor.congr {qeid qeid' cpusvn pcesvn pceid pceid' : String} {rec : PckCertRecord}
    (hqe : Same qeid qeid') (hpce : Same pceid pceid') (h : ServedFor qeid cpusvn pcesvn pceid rec) :
    ServedFor qeid' cpusvn pcesvn pceid' rec :=
  ⟨h.ofQe.trans hqe, h.ofPce.trans hpce, certWithin_congr hpce rfl rfl h.within⟩

/-- Whatever TCB info a record is selected with. -/
theorem selected_within {pool : PlatformPool} {cpusvn pcesvn pceid : String} {tcb : TcbRecord}
    {rec : PckCertRecord} (hpce : Same pool.pceId pceid)
    (h : selectFromPoolWithTcb pool cpusvn pcesvn pceid tcb = .ok rec) :
    RowWithin (.pckcert rec) ∧ ServedFor pool.qeId cpusvn pcesvn pceid rec := by
  unfold selectFromPoolWithTcb at h
  split at h
  · cases h
  · rename_i tcbm cert hbest
    cases h
    have hwithin := (selectBestPckCert_eq_ok hbest).2
    exact ⟨certWithin_congr hpce.symm (same_uppercase _) (same_uppercase _) hwithin,
      rfl, hpce, hwithin⟩

/-- Replacing the certificates of a platform selects every record again. -/
theorem replace_within (hs : Every RowWithin s) {fresh : PlatformPool}
    {publication : PlatformPublication} {tcbs : List TcbRecord} {selected : Option PckCertRecord}
    {select : PlatformPool → RawTcb → Except PccsError PckCertRecord} {batch : WriteBatch}
    (hselected : ∀ rec ∈ selected, RowWithin (.pckcert rec))
    (hselect : ∀ raw rec, select fresh raw = .ok rec → RowWithin (.pckcert rec))
    (h : replacePlatformCertsAfterFetch env s fresh publication tcbs selected select =
      .ok ((), batch)) : Every RowWithin (write s batch) := by
  obtain ⟨_, _, recs, rawTcbs, rfl, hrecs⟩ := replace_eq_ok h
  refine hs.write fun k row hput => ?_
  obtain ⟨rec, hrec, rfl⟩ | ⟨rec, rfl⟩ | ⟨_, rfl⟩ := put_of_publication hput
  · obtain hrec | ⟨raw, _, hraw⟩ := hrecs rec hrec
    · exact hselected rec hrec
    · exact hselect raw rec hraw
  · trivial
  · trivial

theorem select_within (hs : Every RowWithin s) {r : Except PccsError PckCertRecord}
    {qeid pceid cpusvn pcesvn : String}
    (h : perform env cfg s (.selectPlatformCert qeid pceid cpusvn pcesvn) r s') :
    Every RowWithin s' ∧ ∀ rec, r = .ok rec → ServedFor qeid cpusvn pcesvn pceid rec := by
  obtain ⟨e, _, rfl, rfl⟩ | ⟨rec, batch, hok, rfl, rfl⟩ := commit_cases h
  · exact ⟨hs, fun rec hrec => by cases hrec⟩
  · obtain ⟨pool, hpool, hselect, rfl⟩ := select_eq_ok hok
    obtain ⟨_, hqe, hpce⟩ := getPlatformPool_eq_some.mp hpool
    obtain ⟨_, _, hselect⟩ := bind_eq_ok.mp hselect
    obtain ⟨tcb, _, hselect⟩ := bind_eq_ok.mp hselect
    obtain ⟨hrow, hserved⟩ := selected_within hpce hselect
    refine ⟨hs.write fun k row hput => ?_, ?_⟩
    · obtain he | he := List.mem_pair.mp hput
      · cases he
        exact hrow
      · cases he
        trivial
    · rintro _ ⟨⟩
      exact hserved.congr hqe rfl

theorem store_within (hs : Every RowWithin s) {qeid pceid : String} {context : PckFetchContext}
    {pool : PlatformPool} {resp : PckCertsResponse} {tcbs : List TcbRecord}
    {requested : Option (String × String)} {r : Except PccsError (Option PckCertRecord)}
    (hpool : pckcertPool qeid pceid context.encPpid context.platformManifest resp = .ok pool)
    (h : perform env cfg s (.storePckcerts pceid context pool resp tcbs requested) r s') :
    Every RowWithin s' ∧ ∀ rec, r = .ok (some rec) →
      ∃ level ∈ requested, ServedFor qeid level.1 level.2 pceid rec := by
  obtain ⟨e, _, rfl, rfl⟩ | ⟨found, batch, hok, rfl, rfl⟩ := commit_cases h
  · exact ⟨hs, fun rec hrec => by cases hrec⟩
  · obtain ⟨tcb, hstage, hreplace⟩ := storePckcerts_eq_ok hok
    obtain ⟨_, _, hfound⟩ := stagePckcerts_eq_ok hstage
    have hpce : Same pool.pceId pceid := by
      rw [(pckcertPool_eq_ok hpool).2]
      exact (same_uppercase pceid).symm
    have hqe : Same pool.qeId qeid := by
      rw [(pckcertPool_eq_ok hpool).2]
      exact (same_uppercase qeid).symm
    refine ⟨replace_within hs ?_ ?_ hreplace, ?_⟩
    · intro rec hrec
      obtain ⟨level, _, hselect⟩ := hfound rec (mem_persistSelected hrec)
      exact (selected_within hpce hselect).1
    · intro raw rec hselect
      exact (selected_within hpce hselect).1
    · rintro rec ⟨⟩
      obtain ⟨level, hlevel, hselect⟩ := hfound rec rfl
      exact ⟨level, hlevel, (selected_within hpce hselect).2.congr hqe rfl⟩

theorem refreshed_within (hs : Every RowWithin s) {fresh : PlatformPool}
    {expected : PlatformCredentials} {tcb : TcbRecord} {r : Except PccsError Unit}
    (h : (r, s') = commit s (publishRefreshed env s fresh expected tcb)) : Every RowWithin s' := by
  obtain ⟨e, _, _, rfl⟩ | ⟨u, batch, hok, _, rfl⟩ := commit_cases h
  · exact hs
  · have hreplace : replacePlatformCertsAfterFetch env s fresh (.observed (some expected)) [] none
        (fun fresh raw => selectFromPoolWithTcb fresh raw.cpuSvn raw.pceSvn fresh.pceId tcb) =
          .ok ((), batch) := hok
    refine replace_within hs (by simp) ?_ hreplace
    intro raw rec hselect
    exact (selected_within rfl hselect).1

/-- The levels of a body are selected from the certificates it carries. -/
theorem platforms_within (hs : Every RowWithin s) {body : Value} {version : Nat}
    {r : Except PccsError Unit} (h : (r, s') = commit s
      ((Collateral.platformWrites env s body version).map fun batch => ((), batch))) :
    Every RowWithin s' := by
  obtain rfl | ⟨batch, hok, rfl⟩ := platforms_cases h
  · exact hs
  · refine hs.write fun k row hput => ?_
    obtain ⟨pc, _, info, tcbInfo, selected, _, _, hselected, hrow⟩ := put_of_platforms hok hput
    obtain ⟨x, hx, rfl⟩ | ⟨_, rfl⟩ := hrow
    · obtain ⟨level, _, hlevel⟩ := exists_of_mem_result hselected x hx
      unfold Collateral.selectLevel at hlevel
      split at hlevel
      · cases hlevel
      · rename_i tcbm cert hbest
        cases hlevel
        exact (selectBestPckCert_eq_ok hbest).2
    · trivial

theorem untouched_within (hs : Every RowWithin s) (h : Untouched env s s') : Every RowWithin s' := by
  obtain ⟨batch, rfl, hbatch⟩ := h
  refine hs.write fun k row hput => ?_
  cases row with
  | pckcert rec => exact absurd rfl ((hbatch _ hput).noRecord rec)
  | _ => trivial

end Writers

section Runs

variable {env : Env} {chrono : Ocsp.Chrono} {cfg : Config}

/-- A GET returns nothing above its request. -/
def boundPolicy (env : Env) (cfg : Config) : Policy env cfg where
  performs := perform env cfg
  performed h := h
  inv := Every RowWithin
  name _ := True
  good := ServedFor
  guar _ _ _ _ _ _ := True

theorem boundPolicy_duties (hintel : cfg.isIntel = true) : Duties (boundPolicy env cfg) where
  name_congr _ _ _ _ := trivial
  good_congr _ _ _ _ _ _ _ hqe hpce h := h.congr hqe hpce
  mono _ _ _ _ _ _ _ _ _ := trivial
  listed _ _ _ _ := trivial
  hit s qeid cpusvn pcesvn pceid rec hs hget := by
    obtain ⟨hrow, hqe, hpce, hcpu, hsvn⟩ := getPckcert_eq_some.mp hget
    exact ⟨hqe, hpce, certWithin_congr hpce hcpu hsvn (hs _ _ hrow)⟩
  untouched _ _ _ _ _ _ _ hs h := ⟨untouched_within hs h, trivial⟩
  select _ _ _ _ _ _ _ _ _ hs _ h := by
    obtain ⟨hinv, hgood⟩ := select_within hs h
    exact ⟨hinv, trivial, hgood⟩
  store _ _ _ _ _ _ _ _ _ _ _ _ _ hs _ _ _ _ hpool h := by
    obtain ⟨hinv, hgood⟩ := store_within hs hpool h
    exact ⟨hinv, trivial, hgood⟩
  refreshed _ _ _ _ _ _ _ _ _ hs _ _ _ _ h := ⟨refreshed_within hs h, trivial⟩
  merge hmirror := absurd (hintel.symm.trans hmirror) (by decide)
  mirror hmirror := absurd (hintel.symm.trans hmirror) (by decide)
  platforms _ _ _ _ _ _ hs _ h := ⟨platforms_within hs h, trivial⟩

/-- What a GET serves from an Intel upstream, whichever way it came by it: of the
platform asked for, and at or below the level asked for. -/
theorem served_within (hintel : cfg.isIntel = true)
    {c : Process.Config (cacheSystem env chrono cfg (Request.OnPlatforms fun _ => True))}
    (h : Reachable (fun c => c.state = ∅ ∧ c.threads = []) Process.Step c)
    {q : Validate.PckcertQuery} {version : Nat} {rec : PckCertRecord} {past : Past}
    (ht : ⟨.getPckcert q version, .ret (.ok rec), past⟩ ∈ c.threads) :
    ServedFor q.qeid q.cpusvn q.pcesvn q.pceid rec := by
  have hstart : ∀ c : Process.Config
      ((boundPolicy env cfg).system chrono (Request.OnPlatforms fun _ => True)),
      c.state = ∅ ∧ c.threads = [] → Every RowWithin c.state ∧ c.threads = [] := by
    rintro ⟨s, threads⟩ ⟨rfl, rfl⟩
    exact ⟨every_empty _, rfl⟩
  obtain ⟨_, hsafe⟩ := sound_of_duties (boundPolicy_duties hintel) (fun _ hq => hq) hstart h
  exact hsafe _ ht rec rfl

end Runs

section Filled

/-- A GET of a platform that is not known. -/
def newQuery : Validate.PckcertQuery :=
  ⟨"A1", "00000000000000000000000000000000", "0500", "0000", some somePpid⟩

def lazyCfg : Config := .plain

/-- One certificate, at PCESVN 1. -/
def onePem : String := (sampleFields 0 1).pem

def certsAnswer : Value := .array [.object [("tcb", .object []), ("tcbm", .string "01"),
  ("cert", .string onePem)]]

/-- A TCB info of the platform. -/
def sgxInfo : Value := .object [("id", .string "SGX"), ("tcbType", .posInt 0),
  ("pceId", .string "0000"), ("fmspc", .string "000000000000"),
  ("tcbLevels", .array [.object [("tcb", .object
    [("sgxtcbcomponents", .array (List.replicate 16 (.object [("svn", .posInt 0)]))),
      ("pcesvn", .posInt 0)])]])]

def tcbAnswer : Value := .object [("tcbInfo", sgxInfo), ("signature", .string "00")]

def answersEnv : Env := Keys.readerEnv [certsAnswer, tcbAnswer]

def certsHttp : HttpResponse :=
  ⟨200, [(sgxFmspc, asBytes "000000000000"), (sgxPckCertificateCaType, asBytes "processor"),
    (sgxPckCertificateIssuerChain, asBytes "chain")], asBytes (rawJson certsAnswer)⟩

def tcbHttp : HttpResponse :=
  ⟨200, [(tcbInfoIssuerChain, asBytes "chain")], asBytes (rawJson tcbAnswer)⟩

def certsResponse : PckCertsResponse :=
  ⟨[sampleEntry "01" 0 1], [], "000000000000", "PROCESSOR", "chain"⟩

def tcbRecord : TcbRecord where
  prodType := 0
  fmspc := "000000000000"
  version := 4
  updateType := "STANDARD"
  tcbinfo := tcbAnswer
  rawBody := rawJson tcbAnswer
  issuerChain := "chain"

def newPool : PlatformPool :=
  { qeId := "A1", pceId := "0000", encPpid := somePpid, fmspc := "000000000000", ca := "PROCESSOR",
    issuerChain := "chain", certs := [⟨"01", onePem⟩] }

theorem onePem_ne {text : String} (h : text.toList.head? ≠ some '-') : onePem ≠ text := by
  intro he
  have hlist := congrArg String.toList he
  rw [onePem, PckCert.CertFields.pem, PckCert.toPem, String.toList_ofList, PckCert.armor,
    PckCert.beginMarker_cons] at hlist
  simp [← hlist] at h

theorem parse_certsHttp : parsePckcerts answersEnv certsHttp = .ok certsResponse := by
  have hslice : answersEnv.fromSlice certsHttp.body = some certsAnswer :=
    Keys.readerEnv_first certsAnswer [tcbAnswer]
  have hfmspc : toAsciiUppercase (certsHttp.hdr sgxFmspc) = "000000000000" := by decide +kernel
  have hca : toAsciiUppercase (certsHttp.hdr sgxPckCertificateCaType) = "PROCESSOR" := by
    decide +kernel
  have hchain : certsHttp.hdr sgxPckCertificateIssuerChain = "chain" := by decide +kernel
  have hsorted : filterPckCert ([], []) (.object [("tcb", .object []), ("tcbm", .string "01"),
      ("cert", .string onePem)]) = ([sampleEntry "01" 0 1], []) := by
    have htcbm : ((Value.object [("tcb", .object []), ("tcbm", .string "01"),
        ("cert", .string onePem)]).get "tcbm").bind Value.asStr = some "01" := rfl
    have hcert : ((Value.object [("tcb", .object []), ("tcbm", .string "01"),
        ("cert", .string onePem)]).get "cert").bind Value.asStr = some onePem := rfl
    have hdecoded : Validate.percentDecode onePem = onePem := Manifests.percentDecode_toPem _
    have hupper : toAsciiUppercase "01" = "01" := by decide
    have hkept : ¬ ("01" : String) = "" ∧ onePem ≠ "" := ⟨by decide, onePem_ne (by simp)⟩
    unfold filterPckCert
    simp only [htcbm, hcert, Option.getD_some, hdecoded, hupper]
    rw [if_neg (onePem_ne (by simp)), if_pos hkept]
    rfl
  unfold parsePckcerts
  refine bind_eq_ok.mpr ⟨(), reject_eq_ok.mpr (by simp [certsHttp]), ?_⟩
  simp only [hfmspc, hca, hchain, hslice]
  refine bind_eq_ok.mpr ⟨(), reject_eq_ok.mpr (by decide), ?_⟩
  refine bind_eq_ok.mpr ⟨certsAnswer, rfl, bind_eq_ok.mpr ⟨_, rfl, ?_⟩⟩
  simp only [List.foldl_cons, List.foldl_nil, hsorted]
  rfl

theorem fromUtf8_asBytes (s : String) : fromUtf8 (asBytes s) = some s := by
  have htext : fromUtf8Lossy (asBytes s) = s := by
    rw [fromUtf8Lossy, asBytes_eq, utf8Lossy_encoded, String.ofList_toList]
  simp only [fromUtf8, htext, if_true]

/-- A list and an object begin differently. -/
theorem rawJson_array_ne (items : List Value) (fields : List (String × Value)) :
    rawJson (.array items) ≠ rawJson (.object fields) := by
  intro he
  have hlist := congrArg (fun s : String => s.toList.head?) he
  simp [rawJson] at hlist

theorem parse_tcbHttp :
    parseTcb answersEnv 0 "000000000000" 4 .standard tcbHttp = .ok tcbRecord := by
  have hslice : answersEnv.fromSlice (asBytes (rawJson tcbAnswer)) = some tcbAnswer :=
    Keys.readerEnv_second (rawJson_array_ne _ _) []
  have hchain : tcbHttp.hdr tcbInfoIssuerChain = "chain" := by decide +kernel
  unfold parseTcb
  refine bind_eq_ok.mpr ⟨(), reject_eq_ok.mpr (by simp [tcbHttp]), ?_⟩
  refine bind_eq_ok.mpr ⟨_, require_eq_ok.mpr (fromUtf8_asBytes _), ?_⟩
  refine bind_eq_ok.mpr ⟨_, require_eq_ok.mpr hslice, ?_⟩
  simp only [hchain]
  rfl

theorem admitted_sgxInfo : Admitted "0000" [sampleEntry "01" 0 1] sgxInfo := by
  have hparse : parsePckCerts [sampleEntry "01" 0 1] = .ok [⟨toAsciiUppercase "01",
      (sampleFields 0 1).pem, (sampleFields 0 1).info, sampleTcb 0 1⟩] := by
    simp only [parsePckCerts, List.mapM_cons, List.mapM_nil, parseOne_sample]
    rfl
  have hvalid : (validateInput "0000" [⟨toAsciiUppercase "01", (sampleFields 0 1).pem,
      (sampleFields 0 1).info, sampleTcb 0 1⟩] sgxInfo).toOption = some () := by
    decide +kernel
  have hbuckets : (createBuckets sgxInfo).toOption.isSome := by decide +kernel
  obtain ⟨buckets, hbuckets⟩ := Option.isSome_iff_exists.mp hbuckets
  exact ⟨_, buckets, hparse, toOption_eq_some.mp hvalid, toOption_eq_some.mp hbuckets⟩

theorem selected_sgxInfo : ∃ best, selectBestPckCert newQuery.cpusvn newQuery.pcesvn "0000"
    [sampleEntry "01" 0 1] sgxInfo = .ok best := by
  have hraw : (Tcb.fromHex newQuery.cpusvn newQuery.pcesvn).toOption = some (sampleTcb 0 5) := by
    decide +kernel
  refine (selects_iff admitted_sgxInfo (toOption_eq_some.mp hraw)).mpr ?_
  exact ⟨_, .head _, sampleTcb 0 1, certTcb_sample _ 0 1, by decide⟩

/-- What the fill publishes, and the context it does so with. -/
def newContext : PckFetchContext := ⟨somePpid, "", none, true⟩

def newStore : Op := .storePckcerts "0000" newContext newPool certsResponse [tcbRecord]
  (some (newQuery.cpusvn, newQuery.pcesvn))

theorem checked_tcbRecord : checkStagedTcb "0000" newPool tcbRecord = .ok () := by
  obtain ⟨parsed, buckets, hparse, hvalid, hbuckets⟩ := admitted_sgxInfo
  have hpool : validatePckCertPool "0000" newPool.certPairs sgxInfo = .ok () :=
    bind_eq_ok.mpr ⟨(), rfl, bind_eq_ok.mpr ⟨parsed, hparse, bind_eq_ok.mpr ⟨(), hvalid,
      bind_eq_ok.mpr ⟨buckets, hbuckets, rfl⟩⟩⟩⟩
  refine bind_eq_ok.mpr ⟨(), rfl, ?_⟩
  exact mapError_eq_ok.mpr hpool

/-- Nothing is stored for the platform, and the publication succeeds. -/
theorem perform_newStore : ∃ rec s', perform answersEnv lazyCfg ∅ newStore (.ok (some rec)) s' := by
  obtain ⟨⟨tcbm, cert⟩, hbest⟩ := selected_sgxInfo
  have hselect : ∃ rec, selectFromPoolWithTcb newPool newQuery.cpusvn newQuery.pcesvn "0000"
      tcbRecord = .ok rec := by
    have hpairs : newPool.certPairs = [sampleEntry "01" 0 1] := rfl
    have hinfo : innerInfo tcbRecord = sgxInfo := rfl
    rw [selectFromPoolWithTcb, hpairs, hinfo, hbest]
    exact ⟨_, rfl⟩
  obtain ⟨rec, hrec⟩ := hselect
  have hstage : stagePckcerts "0000" newPool [tcbRecord]
      (some (newQuery.cpusvn, newQuery.pcesvn)) = .ok (tcbRecord, some rec) :=
    bind_eq_ok.mpr ⟨(), forM_eq_ok.mpr (List.forall_mem_singleton.mpr checked_tcbRecord),
      bind_eq_ok.mpr ⟨tcbRecord, rfl, bind_eq_ok.mpr ⟨rec, hrec, rfl⟩⟩⟩
  have hnone : getPlatformPool answersEnv ∅ newPool.qeId newPool.pceId = none := by
    simp [getPlatformPool]
  have hreplace : ∃ batch, replacePlatformCertsAfterFetch answersEnv ∅ newPool
      newContext.publication [tcbRecord] (persistSelected .lazy certsResponse (some rec))
      (fun fresh raw => selectFromPoolWithTcb fresh raw.cpuSvn raw.pceSvn "0000" tcbRecord) =
        .ok ((), batch) := by
    unfold replacePlatformCertsAfterFetch
    rw [hnone]
    exact ⟨_, bind_eq_ok.mpr ⟨(), rfl, bind_eq_ok.mpr ⟨[], rfl, rfl⟩⟩⟩
  obtain ⟨batch, hreplace⟩ := hreplace
  have hstore : storePckcerts answersEnv ∅ .lazy "0000" newContext newPool certsResponse [tcbRecord]
      (some (newQuery.cpusvn, newQuery.pcesvn)) = .ok (some rec, batch) :=
    bind_eq_ok.mpr ⟨_, hstage, bind_eq_ok.mpr ⟨_, hreplace, rfl⟩⟩
  refine ⟨rec, write ∅ batch, ?_⟩
  have hcommit : ((Except.ok (some rec) : Except PccsError (Option PckCertRecord)), write ∅ batch) =
      commit ∅ (storePckcerts answersEnv ∅ .lazy "0000" newContext newPool certsResponse [tcbRecord]
        (some (newQuery.cpusvn, newQuery.pcesvn))) := by
    rw [hstore]
    rfl
  exact hcommit

/-- The operations of a fill: none that starts a task, ends a refresh or is of a PUT. -/
def Op.fills : Op → Bool
  | .spawnRefresh _ => false
  | .publishRefreshed _ _ _ => false
  | .putPlatforms _ _ => false
  | _ => true

theorem forks_of_fills {o : Op} (h : o.fills = true) : forks o = [] := by
  cases o with
  | spawnRefresh pool => cases h
  | _ => rfl

/-- One operation of a request that starts no task. -/
abbrev unforked (env : Env) (cfg : Config) : Database → (o : Op) → o.Res → Database → Prop :=
  fun s o r s' => o.fills = true ∧ perform env cfg s o r s'

/-- The standard SGX document is served and the others are not. -/
def tcbAnswers (w : Nat × UpdateType) : (Nat × UpdateType) × Except PccsError TcbRecord :=
  (w, if w = (0, .standard) then .ok tcbRecord else .error .noCacheData)

theorem exec_tcbInfos : Exec (unforked answersEnv lazyCfg) ∅
    (fetchTcbInfos answersEnv lazyCfg "000000000000") (.ok [tcbRecord]) ∅ := by
  have hmissing : ∀ w : Nat × UpdateType, Exec (unforked answersEnv lazyCfg) ∅
      (fetchTcb answersEnv lazyCfg w.1 "000000000000" 4 w.2) (.error .noCacheData) ∅ :=
    fun w => Exec.andThen_error (Exec.call ⟨rfl, rfl⟩)
  have hserved : Exec (unforked answersEnv lazyCfg) ∅
      (fetchTcb answersEnv lazyCfg 0 "000000000000" 4 .standard) (.ok tcbRecord) ∅ := by
    refine Exec.andThen_ok (a := tcbHttp) (Exec.call ⟨rfl, rfl⟩) ?_
    rw [parse_tcbHttp]
    exact .ret _ _
  have hdocument : ∀ w ∈ wantedTcbs 4, Exec (unforked answersEnv lazyCfg) ∅
      ((fetchTcb answersEnv lazyCfg w.1 "000000000000" 4 w.2).bind fun rec => .ret (w, rec))
      (tcbAnswers w) ∅ := by
    intro w _
    by_cases hw : w = (0, .standard)
    · subst hw
      exact hserved.bind (.ret _ _)
    · rw [tcbAnswers, if_neg hw]
      exact (hmissing w).bind (.ret _ _)
  have hcollected : collectTcbs ((wantedTcbs 4).map tcbAnswers) = .ok [tcbRecord] := rfl
  refine (Exec.collect hdocument).bind ?_
  rw [hcollected]
  exact .ret _ _

/-- The fill up to its publication. -/
theorem alone_fill : Alone (unforked answersEnv lazyCfg) ∅
    (fillPckcert answersEnv lazyCfg "A1" newQuery.cpusvn newQuery.pcesvn "0000" newContext)
    (act newStore) ∅ := by
  have hfetch : Exec (unforked answersEnv lazyCfg) ∅
      (fetchPool answersEnv lazyCfg somePpid "" "0000") (.ok certsResponse) ∅ := by
    have hget : fetchPool answersEnv lazyCfg somePpid "" "0000" =
        (act (.fetch (.pckcertsIntel somePpid "0000"))).andThen fun r =>
          settled (parsePckcerts answersEnv r) := by
      simp only [fetchPool, fetchPckcertsIntel, somePpid_nonzero]
      rfl
    rw [hget]
    refine Exec.andThen_ok (a := certsHttp) (Exec.call ⟨rfl, rfl⟩) ?_
    rw [parse_certsHttp]
    exact .ret _ _
  have hpool : pckcertPool "A1" "0000" somePpid "" certsResponse = .ok newPool := by
    refine bind_eq_ok.mpr ⟨(), rfl, bind_eq_ok.mpr ⟨(), rfl, ?_⟩⟩
    rw [somePpid_upper]
    rfl
  have hfills : fillPckcert answersEnv lazyCfg "A1" newQuery.cpusvn newQuery.pcesvn "0000" newContext =
      (fetchPool answersEnv lazyCfg somePpid "" "0000").andThen fun resp =>
        publishPckcerts answersEnv lazyCfg "A1" "0000" newContext resp
          (some (newQuery.cpusvn, newQuery.pcesvn)) := by
    simp only [fillPckcert, newContext, lazyCfg, Config.plain, somePpid_ne]
    rfl
  rw [hfills]
  refine hfetch.then_alone ?_
  have hvalid : Exec (unforked answersEnv lazyCfg) ∅
      (validatePool answersEnv lazyCfg "A1" "0000" somePpid "" certsResponse) (.ok newPool) ∅ := by
    rw [validatePool_lazy rfl, hpool]
    exact .ret _ _
  change Alone _ ∅ ((validatePool answersEnv lazyCfg "A1" "0000" somePpid "" certsResponse).andThen
    fun pool => (fetchTcbInfos answersEnv lazyCfg "000000000000").andThen fun tcbs =>
      act (.storePckcerts "0000" newContext pool certsResponse tcbs
        (some (newQuery.cpusvn, newQuery.pcesvn)))) _ _
  refine hvalid.then_alone ?_
  change Alone _ ∅ ((fetchTcbInfos answersEnv lazyCfg "000000000000").andThen fun tcbs =>
    act (.storePckcerts "0000" newContext newPool certsResponse tcbs
      (some (newQuery.cpusvn, newQuery.pcesvn)))) _ _
  refine exec_tcbInfos.then_alone ?_
  exact .here _ _

/-- What a GET does with the record of its fill. -/
def afterStore : Except PccsError (Option PckCertRecord) → Attempt PckCertRecord := fun r =>
  note (Keys.pckcert answersEnv "A1" "0000" newQuery.cpusvn newQuery.pcesvn)
    ((Proc.ret r : Attempt (Option PckCertRecord)).andThen fun rec =>
      settled (require rec noCacheData))

theorem alone_get : Alone (unforked answersEnv lazyCfg) ∅
    (getPckcertRequest answersEnv lazyCfg newQuery 4) (.op newStore afterStore) ∅ := by
  have hnone : getPlatformPool answersEnv ∅ "A1" "0000" = none := by simp [getPlatformPool]
  have hmissing : getPckcert answersEnv ∅ "A1" newQuery.cpusvn newQuery.pcesvn "0000" = none := by
    simp [getPckcert]
  have hunknown : hasPlatform answersEnv ∅ "A1" "0000" = false := by simp [hasPlatform]
  refine (Exec.call (r := false) ⟨rfl, hunknown.symm, rfl⟩).then_alone ?_
  refine (Exec.call (r := .ok ()) ⟨rfl, rfl⟩).then_alone ?_
  refine (Exec.call (r := none) ⟨rfl, hmissing.symm, rfl⟩).then_alone ?_
  refine (Exec.call (r := none) ⟨rfl, hnone.symm, rfl⟩).then_alone ?_
  exact (alone_fill.under _).under _

/-- A request that runs alone is a run of the cache. -/
theorem reachable_unforked {env : Env} {chrono : Ocsp.Chrono} {cfg : Config}
    {accepts : Request → Prop} {start : Process.Config (cacheSystem env chrono cfg accepts) → Prop}
    {q : Request} {s s' : Database} {p p' : Action q.Reply} {past : Past}
    {ts : List (Process.Thread (cacheSystem env chrono cfg accepts))}
    (h : Alone (unforked env cfg) s p p' s')
    (hr : Reachable start Process.Step ⟨s, ⟨q, p, past⟩ :: ts⟩) :
    ∃ past', Reachable start Process.Step ⟨s', ⟨q, p', past'⟩ :: ts⟩ :=
  reachable_alone (h.mono fun _ _ _ _ hs => ⟨forks_of_fills hs.1, hs.2⟩) hr

/-- The GET before its publication. -/
def beforeStore (chrono : Ocsp.Chrono) (accepts : Request → Prop) (past : Past) :
    Process.Config (cacheSystem answersEnv chrono lazyCfg accepts) :=
  ⟨∅, [⟨.getPckcert newQuery 4, .op newStore afterStore, past⟩]⟩

theorem reachable_beforeStore (chrono : Ocsp.Chrono) {accepts : Request → Prop}
    (haccepts : accepts (.getPckcert newQuery 4)) :
    ∃ past, Reachable (fun c => c.state = ∅ ∧ c.threads = []) Process.Step
      (beforeStore chrono accepts past) := by
  have hstart : Reachable (fun c => c.state = ∅ ∧ c.threads = []) Process.Step
      (⟨∅, [⟨.getPckcert newQuery 4, getPckcertRequest answersEnv lazyCfg newQuery 4, []⟩]⟩ :
        Process.Config (cacheSystem answersEnv chrono lazyCfg accepts)) :=
    reachable_arrive (q := Request.getPckcert newQuery 4) ⟨rfl, rfl⟩ haccepts
  exact reachable_unforked alone_get hstart

theorem served_within_filled : ∃ rec, ServedFor "A1" newQuery.cpusvn "0500" "0000" rec := by
  have hget : Request.OnPlatforms (fun _ => True) (.getPckcert newQuery 4) := trivial
  obtain ⟨past, hbefore⟩ := reachable_beforeStore Ocsp.noon hget
  obtain ⟨rec, s', hstore⟩ := perform_newStore
  have hlast : Alone (unforked answersEnv lazyCfg) ∅ (.op newStore afterStore) (.ret (.ok rec)) s' :=
    .step ⟨rfl, hstore⟩ (.here _ _)
  obtain ⟨past', hserved⟩ := reachable_unforked hlast hbefore
  exact ⟨rec, served_within rfl hserved List.mem_cons_self⟩

end Filled

end Pccs.Cache
