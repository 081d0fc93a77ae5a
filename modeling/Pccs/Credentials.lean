import Pccs.CheckedPools

/-!
# What may change the credentials of a platform

The same as in a compare and set, seen from the store. If after an operation that
is not of a PUT a platform has other certificates or other credentials, then the
request had read the platform as it still was before it asked the upstream. A
publication that finds something else is refused, no GET changes credentials, and
what is published belongs to the credentials it was asked for with.
-/
namespace Pccs.Cache

open Text Json Fallible KeyValue Store Process Runs Coherence

/-- The exchange is one for the certificates of this platform, with this PPID
unless it is one by the manifest; a GET that has found no platform never asks by
the manifest. -/
def AsksFor (qeid pceid encPpid : String) (publication : PlatformPublication) : Fetch → Prop
  | .pckcertsIntel asked asked' => asked = encPpid ∧ asked' = pceid
  | .pckcertsIntelManifest _ asked' => asked' = pceid ∧ publication ≠ .absentGet encPpid ""
  | .pckcertPccs asked _ _ asked' told => asked = qeid ∧ asked' = pceid ∧ told.getD "" = encPpid
  | _ => False

/-- The request has read what it expects of the platform, and after that it has
asked the upstream. -/
def Expected (past : Past) (qeid pceid : String) (publication : PlatformPublication) : Prop :=
  ∃ before encPpid f http, Observed before qeid pceid encPpid publication ∧
    AsksFor qeid pceid encPpid publication f ∧ Fetched past before f http

/-- Other certificates or other credentials come only to a platform that is as it
was expected to be. -/
def Renewed (env : Env) (past : Past) (s s' : Database) : Prop :=
  ∀ qeid pceid old new, getPlatformPool env s qeid pceid = some old →
    getPlatformPool env s' qeid pceid = some new →
    new.certs ≠ old.certs ∨ new.credentials ≠ old.credentials →
    ∃ asked asked' publication, Same qeid asked ∧ Same pceid asked' ∧
      Expected past asked asked' publication ∧ Admits publication (some old)

/-- A publication for a platform that is not as it was expected to be fails, and a
failed one changes nothing. -/
structure Guards (env : Env) (past : Past) (s : Database) (qeid pceid : String)
    (publication : PlatformPublication) {α : Type} (r : Except PccsError α) (s' : Database) :
    Prop where
  expected : Expected past qeid pceid publication
  refused : ¬ Admits publication (getPlatformPool env s qeid pceid) → ∃ e, r = .error e
  failed : ∀ e, r = .error e → s' = s

/-- The platform has the credentials the upstream was asked for with, and the
certificates of its answer. -/
def Bound (env : Env) (past : Past) (s' : Database) (qeid pceid encPpid platformManifest : String) :
    Prop :=
  ∃ before resp pool, Answered env past before encPpid platformManifest pceid resp ∧
    getPlatformPool env s' qeid pceid = some pool ∧
    pool.credentials = ⟨toAsciiUppercase encPpid, platformManifest⟩ ∧
    pool.certs = resp.certs.map fun c => ⟨c.1, c.2⟩

/-- What holds of a publication. -/
def Publishes (env : Env) (past : Past) (s : Database) : (o : Op) → o.Res → Database → Prop
  | .storePckcerts pceid context pool _ _ _, r, s' => ∃ qeid, Same pool.qeId qeid ∧
      Guards env past s qeid pceid context.publication r s' ∧
      ∀ rec, r = .ok rec →
        Bound env past s' qeid pceid context.encPpid context.platformManifest
  | .publishRefreshed fresh expected _, r, s' => ∃ seen : PlatformPool, Listed past seen ∧
      seen.credentials = expected ∧ Same fresh.qeId seen.qeId ∧ Same fresh.pceId seen.pceId ∧
      Guards env past s seen.qeId seen.pceId (.observed (some expected)) r s' ∧
      (r = .ok () → Bound env past s' seen.qeId seen.pceId expected.encPpid
        expected.platformManifest)
  | .mergePckcert rec publication, r, s' => ∃ qeid pceid, Same rec.qeid qeid ∧
      Same rec.pceid pceid ∧ Guards env past s qeid pceid publication r s'
  | _, _, _ => True

/-- What is guaranteed of every operation of a request. -/
structure Compared (env : Env) (role : Role) (past : Past) (s : Database) (o : Op) (r : o.Res)
    (s' : Database) : Prop where
  renewed : (∀ body version, o ≠ .putPlatforms body version) → Renewed env past s s'
  published : Publishes env past s o r s'
  kept : role = .get → CredentialsKept env s s'

section Operations

variable {env : Env} {cfg : Config} {s s' : Database} {past past' before : Past}

theorem Expected.mono {qeid pceid : String} {publication : PlatformPublication}
    (hsub : past.Sublist past') (h : Expected past qeid pceid publication) :
    Expected past' qeid pceid publication := by
  obtain ⟨before, encPpid, f, http, hseen, hasks, hfetched⟩ := h
  exact ⟨before, encPpid, f, http, hseen, hasks, hfetched.mono hsub⟩

theorem Guards.mono {qeid pceid : String} {publication : PlatformPublication} {α : Type}
    {r : Except PccsError α} (hsub : past.Sublist past')
    (h : Guards env past s qeid pceid publication r s') :
    Guards env past' s qeid pceid publication r s' :=
  ⟨h.expected.mono hsub, h.refused, h.failed⟩

theorem Bound.mono {qeid pceid encPpid manifest : String} (hsub : past.Sublist past')
    (h : Bound env past s' qeid pceid encPpid manifest) :
    Bound env past' s' qeid pceid encPpid manifest := by
  obtain ⟨before, resp, pool, hanswer, hstored⟩ := h
  exact ⟨before, resp, pool, hanswer.mono hsub, hstored⟩

theorem Publishes.mono (hsub : past.Sublist past') {o : Op} {r : o.Res}
    (h : Publishes env past s o r s') : Publishes env past' s o r s' := by
  cases o with
  | storePckcerts pceid context pool resp tcbs requested =>
    obtain ⟨qeid, hqe, hguards, hbound⟩ := h
    exact ⟨qeid, hqe, hguards.mono hsub, fun rec hr => (hbound rec hr).mono hsub⟩
  | publishRefreshed fresh expected tcb =>
    obtain ⟨seen, ⟨pools, hpools, hmem⟩, hexpected, hqe, hpce, hguards, hbound⟩ := h
    exact ⟨seen, ⟨pools, hsub.subset hpools, hmem⟩, hexpected, hqe, hpce, hguards.mono hsub,
      fun hr => (hbound hr).mono hsub⟩
  | mergePckcert rec publication =>
    obtain ⟨qeid, pceid, hqe, hpce, hguards⟩ := h
    exact ⟨qeid, pceid, hqe, hpce, hguards.mono hsub⟩
  | _ => trivial

theorem Compared.mono {role : Role} (hsub : past.Sublist past') {o : Op} {r : o.Res}
    (h : Compared env role past s o r s') : Compared env role past' s o r s' where
  renewed ho qeid pceid old new hold hnew hother := by
    obtain ⟨asked, asked', publication, hq, hp, hexpected, hadmits⟩ :=
      h.renewed ho qeid pceid old new hold hnew hother
    exact ⟨asked, asked', publication, hq, hp, hexpected.mono hsub, hadmits⟩
  published := h.published.mono hsub
  kept := h.kept

/-- Where a platform keeps its certificates and credentials, nothing was renewed. -/
theorem renewed_of_kept (h : ∀ q p old, getPlatformPool env s q p = some old →
    ∃ new, getPlatformPool env s' q p = some new ∧ new.certs = old.certs ∧
      new.credentials = old.credentials) : Renewed env past s s' := by
  intro q p old new hold hnew hother
  obtain ⟨pool, hpool, hcerts, hcredentials⟩ := h q p old hold
  obtain rfl : pool = new := Option.some.inj (hpool.symm.trans hnew)
  obtain hother | hother := hother
  · exact absurd hcerts hother
  · exact absurd hcredentials hother

theorem renewed_of_eq (h : ∀ q p, getPlatformPool env s' q p = getPlatformPool env s q p) :
    Renewed env past s s' :=
  renewed_of_kept fun q p old hold => ⟨old, (h q p).trans hold, rfl, rfl⟩

section Swapped

variable {qeid pceid : String} {publication : PlatformPublication} {right : PlatformPool → Prop}
  {α : Type} {r : Except PccsError α}

theorem guards_of_swaps (hexpected : Expected past qeid pceid publication)
    (h : Swaps env s qeid pceid publication right r s') :
    Guards env past s qeid pceid publication r s' where
  expected := hexpected
  refused hother := by
    cases r with
    | error e => exact ⟨e, rfl⟩
    | ok a => exact absurd h.1 hother
  failed := by
    rintro e rfl
    exact h

/-- A publication renews its own platform, and that is as it was expected to be. -/
theorem renewed_of_swaps (hexpected : Expected past qeid pceid publication)
    (h : Swaps env s qeid pceid publication right r s') : Renewed env past s s' := by
  cases r with
  | error e =>
    cases h
    exact renewed_of_eq fun _ _ => rfl
  | ok a =>
    obtain ⟨hadmits, pool, _, hrepools⟩ := h
    intro q p old new hold hnew hother
    by_cases hids : Same q qeid ∧ Same p pceid
    · rw [← getPlatformPool_congr hids.1 hids.2, hold] at hadmits
      exact ⟨qeid, pceid, publication, hids.1, hids.2, hexpected, hadmits⟩
    · rw [hrepools.others q p hids, hold] at hnew
      cases hnew
      obtain hother | hother := hother <;> exact absurd rfl hother

theorem bound_of_swaps {encPpid manifest : String} {resp : PckCertsResponse}
    (hanswer : Answered env past before encPpid manifest pceid resp)
    (h : Swaps env s qeid pceid publication (fun pool =>
      pool.credentials = ⟨toAsciiUppercase encPpid, manifest⟩ ∧
      pool.certs = resp.certs.map fun c => ⟨c.1, c.2⟩) r s') {a : α} (hr : r = .ok a) :
    Bound env past s' qeid pceid encPpid manifest := by
  subst hr
  obtain ⟨_, pool, ⟨hcredentials, hcerts⟩, hrepools⟩ := h
  exact ⟨before, resp, pool, hanswer, hrepools.own qeid pceid rfl rfl, hcredentials, hcerts⟩

end Swapped

/-- A publication always ends. -/
theorem perform_storePckcerts (env : Env) (cfg : Config) (s : Database) (pceid : String)
    (context : PckFetchContext) (pool : PlatformPool) (resp : PckCertsResponse)
    (tcbs : List TcbRecord) (requested : Option (String × String)) :
    ∃ r s', perform env cfg s (.storePckcerts pceid context pool resp tcbs requested) r s' :=
  ⟨_, _, rfl⟩

theorem PckFetchContext.manifest_of_absent {context : PckFetchContext} {encPpid manifest : String}
    (h : context.publication = .absentGet encPpid manifest) :
    context.platformManifest = manifest := by
  unfold PckFetchContext.publication at h
  split at h
  · cases h
    rfl
  · cases h

theorem asksFor_poolFetch {qeid pceid encPpid manifest : String}
    {publication : PlatformPublication}
    (hmanifest : publication = .absentGet encPpid "" → manifest = "") :
    AsksFor qeid pceid encPpid publication (poolFetch encPpid manifest pceid) := by
  unfold poolFetch
  split
  · exact ⟨rfl, rfl⟩
  · rename_i hother
    exact ⟨rfl, fun h => hother (hmanifest h)⟩

theorem expected_of_answered {qeid pceid encPpid manifest : String}
    {publication : PlatformPublication} {resp : PckCertsResponse}
    (hmanifest : publication = .absentGet encPpid "" → manifest = "")
    (hseen : Observed before qeid pceid encPpid publication)
    (hanswer : Answered env past before encPpid manifest pceid resp) :
    Expected past qeid pceid publication := by
  obtain ⟨http, hfetched, _⟩ := hanswer
  exact ⟨before, encPpid, _, http, hseen, asksFor_poolFetch hmanifest, hfetched⟩

end Operations

section Runs

variable {env : Env} {chrono : Ocsp.Chrono} {cfg : Config}

def comparePolicy (env : Env) (cfg : Config) : Policy env cfg where
  performs := perform env cfg
  performed h := h
  inv := Placed env
  name := NoSlash
  good _ _ _ _ _ := True
  guar := Compared env

theorem comparePolicy_duties (hinj : Function.Injective env.hash128Hex) :
    Duties (comparePolicy env cfg) where
  name_congr _ _ hsame hname := (noSlash_congr hsame).mp hname
  good_congr _ _ _ _ _ _ _ _ _ _ := trivial
  mono _ _ _ _ _ _ _ hsub h := h.mono hsub
  listed s pool hs hpool := by
    obtain ⟨k, hrow⟩ := PlatformRuns.mem_listPlatformPools hpool
    exact (hs k pool hrow).2
  hit _ _ _ _ _ _ _ _ := trivial
  untouched role past s o r s' ho hs h := by
    refine ⟨untouched_placed hs h, fun _ => renewed_of_eq (untouched_pools h), ?_,
      fun _ => .of_eq (untouched_pools h)⟩
    cases o with
    | storePckcerts => cases ho
    | publishRefreshed => cases ho
    | mergePckcert => cases ho
    | _ => trivial
  select role past s r s' qeid pceid cpusvn pcesvn hs _ h := by
    obtain ⟨e, _, rfl, rfl⟩ | ⟨rec, batch, hok, rfl, rfl⟩ := commit_cases h
    · exact ⟨hs, ⟨fun _ => renewed_of_eq fun _ _ => rfl, trivial, fun _ => .of_eq fun _ _ => rfl⟩,
        fun _ _ => trivial⟩
    · -- a selection changes the levels of its platform alone
      obtain ⟨hplaced, pool, rawTcbs, hpool, hrepools⟩ := select_repools hinj hs hok
      have hown : ∀ old, getPlatformPool env s qeid pceid = some old → pool = old :=
        fun old hold => Option.some.inj (hpool.symm.trans hold)
      refine ⟨hplaced, ⟨fun _ => renewed_of_kept fun q p old hold => ?_, trivial,
        fun _ => hrepools.kept fun old hold => ?_⟩, fun _ _ => trivial⟩
      · by_cases hids : Same q qeid ∧ Same p pceid
        · rw [getPlatformPool_congr hids.1 hids.2] at hold
          obtain rfl := hown old hold
          exact ⟨_, hrepools.own q p hids.1 hids.2, rfl, rfl⟩
        · exact ⟨old, (hrepools.others q p hids).trans hold, rfl, rfl⟩
      · obtain rfl := hown old hold
        exact ⟨rfl, rfl⟩
  store role past before s r s' qeid pceid context pool resp tcbs requested hs hslash horigin hsource
      hresp hpool h := by
    obtain ⟨hplaced, hswaps⟩ := store_swaps hinj hs hslash hpool h
    have hqe : Same pool.qeId qeid := by
      rw [(pckcertPool_eq_ok hpool).2]
      exact (same_uppercase qeid).symm
    have hexpected := expected_of_answered PckFetchContext.manifest_of_absent horigin.observed hresp
    refine ⟨hplaced, ⟨fun _ => renewed_of_swaps hexpected hswaps, ?_, ?_⟩, ?_⟩
    · exact ⟨qeid, hqe, guards_of_swaps hexpected hswaps,
        fun rec hr => bound_of_swaps hresp hswaps hr⟩
    · rintro rfl
      exact swaps_kept (fun pool hpool => hpool.1) (horigin.seen hsource) hswaps
    · intro rec hr
      obtain ⟨level, hlevel⟩ := store_requested (hr ▸ h)
      exact ⟨level, hlevel, trivial⟩
  refreshed past before s r s' pool resp fresh tcb hs hslash hlisted hresp hpool h := by
    obtain ⟨hplaced, hswaps⟩ := refreshed_swaps hinj hs hslash hpool h
    obtain ⟨_, rfl⟩ := pckcertPool_eq_ok hpool
    have hexpected := expected_of_answered (fun h => by cases h)
      (.listed pool hlisted rfl rfl) hresp
    have hseen : Listed past pool := by
      obtain ⟨pools, hpools, hmem⟩ := hlisted
      obtain ⟨http, hfetched, _⟩ := hresp
      exact ⟨pools, hfetched.subset (List.mem_cons_of_mem _ hpools), hmem⟩
    refine ⟨hplaced, fun _ => renewed_of_swaps hexpected hswaps, ?_, fun h => by cases h⟩
    exact ⟨pool, hseen, rfl, (same_uppercase _).symm, (same_uppercase _).symm,
      guards_of_swaps hexpected hswaps, fun hr => bound_of_swaps hresp hswaps hr⟩
  merge _ role past before s r s' qeid cpusvn pcesvn pceid encPpid http rec publication hs hslash
      horigin hfetched hrec h := by
    obtain ⟨hplaced, hswaps⟩ := merge_swaps hinj hs hslash hrec h
    obtain ⟨hqe, hpce, _⟩ := parsePckcertPccs_platform hrec
    have hasks : AsksFor qeid pceid (encPpid.getD "") publication
        (.pckcertPccs qeid cpusvn pcesvn pceid encPpid) := ⟨rfl, rfl, rfl⟩
    have hexpected : Expected past qeid pceid publication :=
      ⟨before, encPpid.getD "", _, http, horigin.observed, hasks, hfetched⟩
    exact ⟨hplaced, fun _ => renewed_of_swaps hexpected hswaps,
      ⟨qeid, pceid, hqe, hpce, guards_of_swaps hexpected hswaps⟩, fun _ => merged_kept hswaps⟩
  mirror _ _ _ _ _ _ := trivial
  platforms past s r s' body version hs hschema h :=
    ⟨platforms_placed hs hschema h, fun ho => absurd rfl (ho body version), trivial,
      fun h => by cases h⟩

/-- In every run of any number of requests, whatever a request does next: certificates
of the upstream come to an existing platform only if it still is what the request has
seen, and otherwise the publication fails and changes nothing; a GET changes no
credentials; and a published pool is of the credentials that it was fetched with. -/
theorem credentials_compared (hinj : Function.Injective env.hash128Hex)
    {c : Process.Config (cacheSystem env chrono cfg Request.Checked)}
    (h : Reachable (fun c => Placed env c.state ∧ c.threads = []) Process.Step c)
    {t : Process.Thread (cacheSystem env chrono cfg Request.Checked)} (ht : t ∈ c.threads) {o : Op}
    {k : o.Res → Action t.request.Reply} (htodo : t.todo = .op o k) {r : o.Res} {s' : Database}
    (hr : perform env cfg c.state o r s') :
    Compared env t.request.role t.past c.state o r s' := by
  obtain ⟨hplaced, hsafe⟩ := sound_of_duties (P := comparePolicy env cfg)
    (comparePolicy_duties hinj) (fun _ hq => Request.Checked.onPlatforms hq)
    (fun _ hstart => hstart) h
  have hthread := hsafe t ht
  rw [htodo] at hthread
  obtain ⟨_, ⟨_, hcompared⟩, _⟩ := hthread c.state r s' hplaced hr
  exact hcompared

/-- Between the read of a GET of an unknown platform and its publication, a PUT
registers the platform with a manifest. The GET is refused. -/
theorem credentials_compared_raced : ∃ past s r s',
    (getPlatformPool answersEnv s "A1" "0000").map PlatformPool.credentials = some ⟨"", "AB"⟩ ∧
      perform answersEnv lazyCfg s newStore r s' ∧
      Compared answersEnv .get past s newStore r s' ∧ (∃ e, r = .error e) ∧ s' = s := by
  obtain ⟨past, c, ⟨hempty, hthreads⟩, hrun⟩ :=
    reachable_beforeStore Ocsp.noon newQuery_checked
  have hplaced : Placed answersEnv c.state := by
    intro k pool hrow
    simp [hempty] at hrow
  have hread : Reachable (fun c => Placed answersEnv c.state ∧ c.threads = []) Process.Step
    (beforeStore Ocsp.noon Request.Checked past) := ⟨c, ⟨hplaced, hthreads⟩, hrun⟩
  obtain ⟨_, hraced⟩ := reachable_put (fun _ _ => trivial) hread (alone_known answersEnv lazyCfg)
  have hpool : getPlatformPool answersEnv (write (write ∅ (Collateral.documentWrites answersEnv
      Manifests.knownBody 4)) [putPlatformPool answersEnv Manifests.knownPool]) "A1" "0000" =
        some Manifests.knownPool :=
    getPlatformPool_eq_some.mpr ⟨get_write_last _ [] []
      (putPlatformPool answersEnv Manifests.knownPool) (by simp), rfl, rfl⟩
  obtain ⟨r, s', hperform⟩ := perform_storePckcerts answersEnv lazyCfg
    (write (write ∅ (Collateral.documentWrites answersEnv Manifests.knownBody 4))
      [putPlatformPool answersEnv Manifests.knownPool])
    "0000" newContext newPool certsResponse [tcbRecord] (some (newQuery.cpusvn, newQuery.pcesvn))
  have hinj : Function.Injective answersEnv.hash128Hex := Keys.plainEnv_injective
  have hcompared := credentials_compared hinj hraced (List.mem_cons_of_mem _ List.mem_cons_self)
    rfl hperform
  obtain ⟨qeid, hqe, hguards, _⟩ := hcompared.published
  have hother : ¬ Admits newContext.publication (some Manifests.knownPool) := by
    intro hadmits
    obtain ⟨_, hmanifest⟩ := hadmits _ rfl
    exact absurd hmanifest (by decide)
  have hfound := (getPlatformPool_congr hqe.symm (rfl : Same "0000" "0000")).trans hpool
  obtain ⟨e, he⟩ := hguards.refused fun hadmits => hother (hfound ▸ hadmits)
  exact ⟨past, _, r, s', by rw [hpool]; rfl, hperform, hcompared, ⟨e, he⟩, hguards.failed e he⟩

end Runs

end Pccs.Cache
