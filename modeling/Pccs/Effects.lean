import Pccs.CacheRules
import Pccs.KeySpace
import Pccs.Lookups

/-!
# What the requests write

One pass over the bodies of all requests, for any predicate on operations: if it
covers the families of rows that a request may write, then the request performs
only operations of the predicate.
-/
namespace Pccs.Cache

open Text Json KeyValue Store Process KeySpace

section Families

/-- The families a bounded kind is kept in. -/
def boundedFamilies (kind : Fifo.Kind) : List Family :=
  (match kind with
    | .amdKds => .amdKds
    | .nvidiaRim => .nvidiaRim
    | .nvidiaOcsp => .nvidiaOcsp) :: [.fifoOrder kind, .fifoPos, .fifoCount kind]

/-- What a fill writes; only REQ mode queues the levels an answer leaves out. -/
def fillFamilies (mode : CacheMode) : List Family :=
  [.pckcert, .platform, .tcb] ++ if mode = .req then [.preg] else []

def verifyingFamilies : List Family := [.pckcrl, .identity, .rootcacrl]

def collateralFamilies : List Family := [.tcb, .crl] ++ verifyingFamilies

def whenLazy (mode : CacheMode) (families : List Family) : List Family :=
  if mode = .lazy then families else []

/-- The families of rows a request may put or delete. -/
def Request.writes (mode : CacheMode) : Request → List Family
  | .getPckcert _ _ => [.pckcert, .platform] ++ whenLazy mode [.tcb]
  | .getTcb _ _ _ _ => whenLazy mode [.tcb]
  | .getIdentity _ _ _ => whenLazy mode [.identity]
  | .getPckcrl _ _ => whenLazy mode [.pckcrl]
  | .getRootcacrl _ => whenLazy mode [.rootcacrl]
  | .getCrl _ _ => whenLazy mode [.crl]
  | .getAmdKds _ => boundedFamilies .amdKds
  | .getNvidiaRim _ => boundedFamilies .nvidiaRim
  | .getNvidiaOcsp _ => boundedFamilies .nvidiaOcsp
  | .getNvidiaNras _ => []
  | .registerPlatform _ _ =>
    match mode with
    | .lazy => fillFamilies .lazy ++ verifyingFamilies
    | .req => fillFamilies .req ++ verifyingFamilies
    | .offline => [.preg]
  | .refresh _ _ => if mode = .offline then [] else fillFamilies mode ++ collateralFamilies
  | .scheduledRefresh =>
    Fifo.boundedKinds.flatMap boundedFamilies ++
      if mode = .offline then [] else collateralFamilies
  | .refreshPool _ => fillFamilies mode
  | .putPlatformCollateral _ _ => [.pckcert, .platform] ++ collateralFamilies

end Families

section Covering

/-- It neither writes nor remembers an answer. -/
def Op.idle : Op → Bool
  | .rememberResponse _ _ => false
  | o => o.silent

/-- The predicate lets through what writes rows of these families. -/
structure Covers (env : Env) (P : Op → Prop) (F : Family → Prop) : Prop where
  idle : ∀ o : Op, o.idle = true → P o
  spawn : ∀ pool, P (.spawnRefresh pool)
  select : F .pckcert → F .platform → ∀ qeid pceid cpusvn pcesvn,
    P (.selectPlatformCert qeid pceid cpusvn pcesvn)
  store : F .pckcert → F .platform → F .tcb → ∀ pceid context pool resp tcbs requested,
    P (.storePckcerts pceid context pool resp tcbs requested)
  publish : F .pckcert → F .platform → F .tcb → ∀ fresh expected tcb,
    P (.publishRefreshed fresh expected tcb)
  merge : F .pckcert → F .platform → ∀ rec publication, P (.mergePckcert rec publication)
  platforms : F .pckcert → F .platform → ∀ body version, P (.putPlatforms body version)
  tcb : F .tcb → ∀ rec, P (.put (putTcb env rec))
  identity : F .identity → ∀ rec, P (.put (putIdentity env rec))
  pckcrl : F .pckcrl → ∀ rec, P (.put (putPckcrl env rec))
  rootcacrl : F .rootcacrl → ∀ crl, P (.put (putRootcacrl crl))
  crl : F .crl → ∀ uri crl, P (.put (putCrl env uri crl))
  register : F .preg → ∀ p, P (.put (registerPlatform env p))
  unregister : F .preg → ∀ p, P (.put (deleteRegistered env p))
  save : ∀ kind, (∀ f ∈ boundedFamilies kind, F f) → ∀ rec, P (.saveUrl kind rec)
  saveOcsp : (∀ f ∈ boundedFamilies .nvidiaOcsp, F f) → ∀ rec, P (.putNvidiaOcsp rec)
  remember : ∀ kind, (∀ f ∈ boundedFamilies kind, F f) → ∀ key resp, P (.rememberResponse key resp)
  drop : ∀ kind : Fifo.Kind, (∀ f ∈ boundedFamilies kind, F f) → ∀ rest,
    P (.deleteKey (kind.name ++ rest))
  sweep : (∀ kind, ∀ f ∈ boundedFamilies kind, F f) → ∀ now, P (.sweepExpired now)

variable {env : Env} {cfg : Config} {P : Op → Prop} {F : Family → Prop}

theorem covered_idle (hP : Covers env P F) {o : Op} (ho : o.idle = true) : Only P (act o) :=
  only_call (hP.idle o ho)

theorem covered_fetched (hP : Covers env P F) (f : Fetch) : P (.fetch f) := hP.idle _ rfl

theorem covered_note (hP : Covers env P F) {α : Type} {key : List UInt8} {p : Attempt α}
    (hp : Only P p) : Only P (note key p) := by
  refine only_bind hp fun r => ?_
  cases r with
  | ok a => trivial
  | error e => exact only_bind (covered_idle hP rfl) fun _ => trivial

theorem covered_mapErr {α : Type} {p : Attempt α} (hp : Only P p) (e : PccsError) :
    Only P (mapErr p e) :=
  only_bind hp fun _ => trivial

theorem covered_each {α : Type} {f : α → Attempt Unit} (hf : ∀ a, Only P (f a)) (l : List α) :
    Only P (each f l) := by
  induction l with
  | nil => trivial
  | cons a rest ih => exact only_andThen (hf a) fun _ => ih

theorem covered_collect {α β : Type} {f : α → Action β} (l : List α) (hf : ∀ a ∈ l, Only P (f a)) :
    Only P (collect f l) := by
  induction l with
  | nil => trivial
  | cons a rest ih =>
    obtain ⟨ha, hrest⟩ := List.forall_mem_cons.mp hf
    exact only_bind ha fun _ => only_bind (ih hrest) fun _ => trivial

theorem fill_families (hfill : ∀ f ∈ fillFamilies cfg.mode, F f) :
    F .pckcert ∧ F .platform ∧ F .tcb :=
  ⟨hfill _ (by simp [fillFamilies]), hfill _ (by simp [fillFamilies]),
    hfill _ (by simp [fillFamilies])⟩

theorem covered_putIfCacheable {chain : String} {w : Write UInt8 Row} (h : P (.put w)) :
    Only P (putIfCacheable chain w) := by
  unfold putIfCacheable
  split
  · exact only_call h
  · trivial

/-- A document that is fetched again and kept if it can be. -/
theorem covered_renewed {α : Type} {fetch : Attempt α} {chain : α → String}
    {w : α → Write UInt8 Row} (hfetch : Only P fetch) (hw : ∀ a, P (.put (w a))) (e : PccsError) :
    Only P ((mapErr fetch e).andThen fun fresh =>
      if cacheable (chain fresh) then (act (.put (w fresh))).bind fun _ => .ret (.ok ())
      else .ret (.ok ())) := by
  refine only_andThen (covered_mapErr hfetch e) fun fresh => ?_
  split
  · exact only_bind (only_call (hw fresh)) fun _ => trivial
  · trivial

end Covering

section Fills

variable {env : Env} {cfg : Config} {P : Op → Prop} {F : Family → Prop} (hP : Covers env P F)
  (hfill : ∀ f ∈ fillFamilies cfg.mode, F f)

include hP hfill

theorem covered_validatePool (qeid pceid encPpid platformManifest : String) (resp : PckCertsResponse) :
    Only P (validatePool env cfg qeid pceid encPpid platformManifest resp) := by
  have hqueue : Only P (processNotAvailable env cfg qeid pceid encPpid platformManifest resp) := by
    unfold processNotAvailable
    split
    · rename_i hmode
      have hpreg : F .preg := hfill _ (by simp [fillFamilies, hmode])
      refine only_bind (only_collect (fun p => ?_) _) fun _ => trivial
      exact only_call (hP.register hpreg p)
    · trivial
  exact only_bind hqueue fun _ => trivial

theorem covered_publishPckcerts (qeid pceid : String) (context : PckFetchContext)
    (resp : PckCertsResponse) (requested : Option (String × String)) :
    Only P (publishPckcerts env cfg qeid pceid context resp requested) := by
  obtain ⟨hrec, hpool, htcb⟩ := fill_families hfill
  refine only_andThen (covered_validatePool hP hfill _ _ _ _ _) fun pool => ?_
  refine only_andThen (only_fetchTcbInfos (covered_fetched hP) _) fun tcbs => ?_
  exact only_call (hP.store hrec hpool htcb _ _ _ _ _ _)

theorem covered_fillPckcert (qeid cpusvn pcesvn pceid : String) (context : PckFetchContext) :
    Only P (fillPckcert env cfg qeid cpusvn pcesvn pceid context) := by
  obtain ⟨hrec, hpool, _⟩ := fill_families hfill
  unfold fillPckcert
  split
  · trivial
  split
  · trivial
  split
  · refine only_andThen (only_parsed (covered_fetched hP _) _) fun rec => ?_
    split
    · exact only_andThen (only_call (hP.merge hrec hpool _ _)) fun _ => trivial
    · trivial
  · refine only_andThen (only_fetchPool (covered_fetched hP) _ _ _) fun resp => ?_
    exact covered_publishPckcerts hP hfill _ _ _ _ _

theorem covered_refetchPool (qeid pceid cpusvn pcesvn : String) (version : Nat) :
    Only P (refetchPoolForNewRawTcb env cfg qeid pceid cpusvn pcesvn version) := by
  have hrefetch : ∀ pool, Only P (refetch env cfg pool cpusvn pcesvn) := fun pool =>
    only_andThen (only_fetchPool (covered_fetched hP) _ _ _) fun _ =>
      covered_publishPckcerts hP hfill _ _ _ _ _
  have hlocked : ∀ platform, Only P (refetchLocked env cfg qeid pceid cpusvn pcesvn platform) := by
    intro platform
    refine only_bind (covered_idle hP rfl) fun again => ?_
    cases refetchable again cpusvn pcesvn with
    | none => trivial
    | some pool =>
      refine only_bind (covered_idle hP rfl) fun due => ?_
      split
      · trivial
      refine only_bind (covered_idle hP rfl) fun _ => ?_
      refine only_bind (only_within (hP.idle _ rfl) (hrefetch pool)) fun out => ?_
      split <;> trivial
  unfold refetchPoolForNewRawTcb
  split
  · refine only_bind (covered_idle hP rfl) fun found => ?_
    cases refetchable found cpusvn pcesvn with
    | none => trivial
    | some pool =>
      refine only_bind (covered_idle hP rfl) fun locked => ?_
      cases locked with
      | error e => trivial
      | ok _ => exact hlocked _
  · trivial

theorem covered_refreshPlatformPool (pool : PlatformPool) :
    Only P (refreshPlatformPool env cfg pool) := by
  obtain ⟨hrec, hpool, htcb⟩ := fill_families hfill
  refine only_andThen (covered_mapErr (only_fetchPool (covered_fetched hP) _ _ _) _) fun resp => ?_
  refine only_andThen (covered_validatePool hP hfill _ _ _ _ _) fun fresh => ?_
  refine only_andThen (only_fetchTcb (covered_fetched hP _)) fun tcb => ?_
  exact only_call (hP.publish hrec hpool htcb _ _ _)

theorem covered_refreshCerts (fmspc : String) : Only P (refreshCerts env cfg fmspc) := by
  obtain ⟨hrec, hpool, _⟩ := fill_families hfill
  unfold refreshCerts
  split
  · trivial
  refine only_bind (covered_idle hP rfl) fun pools => covered_each (fun pool => ?_) _
  unfold refreshPool
  split
  · exact covered_refreshPlatformPool hP hfill pool
  · refine covered_each (fun raw => only_bind (only_parsed (covered_fetched hP _) _) fun r => ?_) _
    cases r with
    | error e => trivial
    | ok fresh =>
      simp only
      split
      · exact only_call (hP.merge hrec hpool _ _)
      · trivial

end Fills

section Documents

variable {env : Env} {cfg : Config} {P : Op → Prop} {F : Family → Prop} (hP : Covers env P F)

include hP

/-- A lookup stores what it fetched as one document, in LAZY mode. -/
theorem covered_lookupLocked {α : Type} {key : List UInt8} {load : Action (Option α)}
    {fetch : Attempt α} {store : α → Action Unit} (hload : Only P load) (hfetch : Only P fetch)
    (hstore : ∀ a, Only P (store a)) : Only P (lookupLocked key load fetch store) := by
  refine only_andThen (covered_idle hP rfl) fun _ => only_bind hload fun found => ?_
  cases found with
  | some rec => trivial
  | none =>
    exact only_andThen (covered_note hP hfetch) fun rec => only_bind (hstore rec) fun _ => trivial

theorem covered_lookupDocument {α : Type} {version : Nat} {key : List UInt8}
    {load : Action (Option α)} {fetch : Attempt α} {store : α → Action Unit} (hload : Only P load)
    (hfetch : Only P fetch) (hstore : cfg.mode = .lazy → ∀ a, Only P (store a)) :
    Only P (lookupDocument cfg version key load fetch store) := by
  refine only_bind hload fun found => ?_
  cases found with
  | some rec => trivial
  | none =>
    simp only
    split
    · trivial
    rename_i hmode
    split
    · trivial
    split
    · trivial
    · exact covered_lookupLocked hP hload hfetch (hstore (Decidable.not_not.mp hmode))

theorem covered_getCrl (hcrl : cfg.mode = .lazy → F .crl) (uri : String) (version : Nat) :
    Only P (getCrlRequest env cfg uri version) := by
  refine only_bind (covered_idle hP rfl) fun found => ?_
  cases found with
  | some rec => trivial
  | none =>
    simp only
    split
    · trivial
    rename_i hmode
    split
    · trivial
    · have hstore := hP.crl (hcrl (Decidable.not_not.mp hmode))
      exact covered_lookupLocked hP (covered_idle hP rfl) (only_fetchCrl (covered_fetched hP _))
        fun rec => only_call (hstore _ _)

theorem covered_nras (body : Value) : Only P (getNvidiaNrasRequest env cfg body) := by
  unfold getNvidiaNrasRequest
  split
  · trivial
  split
  · trivial
  · refine only_bind (covered_idle hP rfl) fun r => ?_
    cases r <;> trivial

/-- A document is kept if it has an issuer chain. -/
theorem covered_fillQvCollateral (hF : ∀ f ∈ verifyingFamilies, F f) (update : UpdateType) :
    Only P (fillQvCollateral env cfg update) := by
  unfold fillQvCollateral
  split
  · trivial
  refine only_bind (only_collect (fun ca => ?_) _) fun _ => ?_
  · refine only_bind (covered_idle hP rfl) fun found => ?_
    cases found with
    | some rec => trivial
    | none =>
      refine only_bind (only_parsed (covered_fetched hP _) _) fun r => ?_
      cases r with
      | ok rec => exact covered_putIfCacheable (hP.pckcrl (hF _ (by decide)) rec)
      | error e => trivial
  refine only_bind (only_collect (fun w => ?_) _) fun _ => ?_
  · refine only_bind (covered_idle hP rfl) fun found => ?_
    cases found with
    | some rec => trivial
    | none =>
      refine only_bind (only_fetchIdentity (covered_fetched hP _)) fun r => ?_
      cases r with
      | ok rec => exact covered_putIfCacheable (hP.identity (hF _ (by decide)) rec)
      | error e => trivial
  refine only_bind (covered_idle hP rfl) fun found => ?_
  cases found with
  | some crl => trivial
  | none =>
    refine only_bind (only_parsed (covered_fetched hP _) _) fun r => ?_
    cases r with
    | ok crl => exact only_call (hP.rootcacrl (hF _ (by decide)) crl)
    | error e => trivial

theorem covered_refreshCollateral (hF : ∀ f ∈ collateralFamilies, F f) :
    Only P (refreshCollateral env cfg) := by
  unfold refreshCollateral
  split
  · trivial
  refine only_bind (covered_idle hP rfl) fun crls => only_andThen (covered_each (fun rec => ?_) _)
    fun _ => ?_
  · exact covered_renewed (only_parsed (covered_fetched hP _) _) (hP.pckcrl (hF _ (by decide))) _
  refine only_bind (covered_idle hP rfl) fun tcbs => only_andThen (covered_each (fun rec => ?_) _)
    fun _ => ?_
  · unfold refreshTcb
    split
    · trivial
    · exact covered_renewed (only_fetchTcb (covered_fetched hP _)) (hP.tcb (hF _ (by decide))) _
  refine only_andThen (covered_each (fun w => ?_) _) fun _ => ?_
  · refine only_bind (only_fetchIdentity (covered_fetched hP _)) fun r => ?_
    cases r with
    | error e => trivial
    | ok fresh =>
      simp only
      split
      · exact only_bind (only_call (hP.identity (hF _ (by decide)) _)) fun _ => trivial
      · trivial
  refine only_andThen (only_bind (covered_idle hP rfl) fun had =>
    only_bind (only_parsed (covered_fetched hP _) _) fun r => ?_) fun _ => ?_
  · cases r with
    | error e => trivial
    | ok fresh =>
      exact only_bind (only_call (hP.rootcacrl (hF _ (by decide)) _)) fun _ => trivial
  refine only_bind (covered_idle hP rfl) fun crls => covered_each (fun rec => ?_) _
  unfold refreshCrl
  split
  · refine only_andThen (only_fetchCrl (covered_fetched hP _)) fun fresh => ?_
    exact only_bind (only_call (hP.crl (hF _ (by decide)) _ _)) fun _ => trivial
  · trivial

theorem covered_refreshPlatformPools : Only P (refreshPlatformPools cfg) := by
  unfold refreshPlatformPools
  split
  · refine only_bind (covered_idle hP rfl) fun pools => ?_
    refine only_bind (covered_idle hP rfl) fun recently => ?_
    have htask : ∀ pool, Only P (act (.spawnRefresh pool)) := fun pool => only_call (hP.spawn pool)
    exact only_bind (only_collect htask _) fun _ => trivial
  · trivial

/-- The part of a scheduled refresh after the sweep. -/
theorem covered_scheduled (hF : cfg.mode ≠ .offline → ∀ f ∈ collateralFamilies, F f) {now : Nat}
    (hsweep : P (.sweepExpired now)) :
    Only P ((act (.sweepExpired now)).bind fun _ =>
      if cfg.mode = .offline then (.ret (.error PccsError.serviceUnavailable) : Attempt Unit)
      else (refreshCollateral env cfg).bind fun collateral =>
        (refreshPlatformPools cfg).bind fun _ => .ret collateral) := by
  refine only_bind (only_call hsweep) fun _ => ?_
  split
  · trivial
  rename_i hmode
  refine only_bind (covered_refreshCollateral hP (hF hmode)) fun _ => ?_
  exact only_bind (covered_refreshPlatformPools hP) fun _ => trivial

theorem covered_putPlatformCollateral (hF : ∀ f ∈ collateralFamilies, F f) (hrec : F .pckcert)
    (hpool : F .platform) (body : Value) (version : Nat) :
    Only P (putPlatformCollateralRequest env body version) := by
  refine only_andThen (p := settled (Validate.platformCollateral body version)) trivial fun _ => ?_
  have hdocs : ∀ w ∈ Collateral.documentWrites env body version, P (.put w) :=
    Collateral.documentWrites_forall (hP.tcb (hF _ (by decide))) (hP.identity (hF _ (by decide)))
      (hP.pckcrl (hF _ (by decide))) (hP.rootcacrl (hF _ (by decide))) (hP.crl (hF _ (by decide)))
      body version
  refine only_bind (covered_collect _ fun w hw => ?_) fun _ => ?_
  · exact only_call (hdocs w hw)
  · exact only_call (hP.platforms hrec hpool body version)

end Documents

section Platforms

variable {env : Env} {cfg : Config} {P : Op → Prop} {F : Family → Prop} (hP : Covers env P F)

include hP

theorem covered_getUncached (hF : cfg.mode = .lazy → ∀ f ∈ fillFamilies .lazy, F f)
    (hrec : F .pckcert) (hpool : F .platform) (q : Validate.PckcertQuery) (version : Nat) :
    Only P (getUncached env cfg q version) := by
  refine only_andThen (covered_idle hP rfl) fun _ => only_bind (covered_idle hP rfl) fun found => ?_
  cases found with
  | some rec => trivial
  | none =>
    simp only [fillForGet]
    split
    · trivial
    rename_i hmode
    have hlazy : cfg.mode = .lazy := Decidable.not_not.mp hmode
    split
    · trivial
    refine only_bind (covered_idle hP rfl) fun current => ?_
    split
    · exact only_call (hP.select hrec hpool _ _ _ _)
    · refine covered_note hP (only_andThen (covered_fillPckcert hP ?_ _ _ _ _ _) fun _ => trivial)
      rw [hlazy]
      exact hF hlazy

theorem covered_getPckcert (hF : cfg.mode = .lazy → ∀ f ∈ fillFamilies .lazy, F f)
    (hrec : F .pckcert) (hpool : F .platform) (q : Validate.PckcertQuery) (version : Nat) :
    Only P (getPckcertRequest env cfg q version) := by
  have hrefetch : Only P
      (refetchPoolForNewRawTcb env cfg q.qeid q.pceid q.cpusvn q.pcesvn version) := by
    by_cases hmode : cfg.mode = .lazy
    · refine covered_refetchPool hP ?_ _ _ _ _ _
      rw [hmode]
      exact hF hmode
    · have hgate : refetchGate cfg version = false := by simp [refetchGate, hmode]
      rw [refetchPoolForNewRawTcb, hgate]
      trivial
  have hknown : Only P (getKnown env cfg q version) := by
    refine only_bind hrefetch fun found => ?_
    cases found with
    | some rec => trivial
    | none =>
      refine only_bind (only_call (hP.select hrec hpool _ _ _ _)) fun selected => ?_
      cases selected with
      | ok rec => trivial
      | error e =>
        simp only
        split
        · trivial
        · exact covered_getUncached hP hF hrec hpool q version
  refine only_bind (covered_idle hP rfl) fun known => ?_
  split
  · refine only_bind (covered_idle hP rfl) fun found => ?_
    cases found with
    | some rec => trivial
    | none => exact hknown
  · exact covered_getUncached hP hF hrec hpool q version

theorem covered_registerPlatform {p : RegisteredPlatform} (update : UpdateType)
    (hwrites : ∀ f ∈ (Request.registerPlatform p update).writes cfg.mode, F f) :
    Only P (registerPlatformRequest env cfg p update) := by
  have hcached : Only P (isCached p) := by
    refine only_bind (covered_idle hP rfl) fun found => ?_
    cases found with
    | none => trivial
    | some platform =>
      simp only
      split
      · exact only_bind (covered_idle hP rfl) fun _ => trivial
      · trivial
  have hfills : cfg.mode ≠ .offline → ∀ p expected, Only P (fillRegistered env cfg p expected) := by
    intro hmode p expected
    refine covered_fillPckcert hP (fun f hf => hwrites f ?_) _ _ _ _ _
    cases hm : cfg.mode with
    | offline => exact absurd hm hmode
    | _ => simp [Request.writes, ← hm, hf]
  have huncached : ∀ p expected, Only P (registerUncached env cfg p expected) := by
    intro p expected
    unfold registerUncached
    simp only
    split
    · rename_i hmode
      have hpreg : F .preg := hwrites _ (by simp [Request.writes, hmode])
      exact only_bind (only_call (hP.register hpreg _)) fun _ => trivial
    · rename_i hmode
      have hpreg : F .preg := hwrites _ (by simp [Request.writes, fillFamilies, hmode])
      refine only_bind (only_call (hP.register hpreg _)) fun _ => ?_
      refine only_andThen (hfills (by simp [hmode]) p expected) fun _ => ?_
      exact only_bind (only_call (hP.unregister hpreg _)) fun _ => trivial
    · rename_i hmode
      exact only_andThen (hfills (by simp [hmode]) p expected) fun _ => trivial
  refine only_bind (covered_idle hP rfl) fun current => only_bind hcached fun ⟨cached, p⟩ => ?_
  refine only_andThen ?_ fun _ => ?_
  · split
    · trivial
    · exact huncached p _
  · split
    · trivial
    rename_i hmode
    refine only_bind (covered_fillQvCollateral hP (fun f hf => hwrites f ?_) update) fun _ => trivial
    cases hm : cfg.mode with
    | offline => exact absurd hm hmode
    | _ => simp [Request.writes, hf]

theorem covered_refresh {typ fmspc : Option String}
    (hwrites : ∀ f ∈ (Request.refresh typ fmspc).writes cfg.mode, F f) :
    Only P (refreshRequest env cfg typ fmspc) := by
  by_cases hmode : cfg.mode = .offline
  · have hrefused : ∀ target, Refresh.refreshTarget cfg.mode typ fmspc ≠ .ok target := by
      intro target hok
      simp only [Refresh.refreshTarget, if_pos hmode] at hok
      split at hok
      · obtain ⟨_, _, hok⟩ := Fallible.bind_eq_ok.mp hok
        cases hok
      · cases hok
      · cases hok
    unfold refreshRequest
    cases htarget : Refresh.refreshTarget cfg.mode typ fmspc with
    | ok target => exact absurd htarget (hrefused target)
    | error e => trivial
  simp only [Request.writes, if_neg hmode, List.forall_mem_append] at hwrites
  refine only_andThen (p := settled (Refresh.refreshTarget cfg.mode typ fmspc)) trivial fun _ => ?_
  cases typ with
  | none => exact covered_refreshCollateral hP hwrites.2
  | some typ =>
    refine only_andThen (p := settled (Validate.fmspc fmspc)) trivial fun fmspc => ?_
    exact covered_refreshCerts hP hwrites.1 fmspc

end Platforms

section Proxied

variable {env : Env} {cfg : Config} {P : Op → Prop} {F : Family → Prop} (hP : Covers env P F)

include hP

theorem covered_getCachedUrl {kind : Fifo.Kind} (hF : ∀ f ∈ boundedFamilies kind, F f) (url : String)
    (ttl : Nat) (accessFailure : PccsError) :
    Only P (getCachedUrl env cfg kind url ttl accessFailure) := by
  have hremember := hP.remember kind hF
  have hdrop : ∀ (next : Attempt Ocsp.AmdKdsResponse), Only P next →
      Only P ((act (.deleteKey (urlKey env kind url))).bind fun _ => next) := fun next hnext =>
    only_bind (only_call (hP.drop kind hF _)) fun _ => hnext
  have hsettle : ∀ r, Only P (settleUrl kind url (asBytes (urlKey env kind url)) accessFailure r) := by
    intro r
    unfold settleUrl
    simp only
    split
    · exact covered_note hP trivial
    split
    · exact only_bind (only_call (hremember _ _)) fun _ => trivial
    · refine only_bind (covered_idle hP rfl) fun fetchedAt => ?_
      exact only_bind (only_call (hP.save kind hF _)) fun _ => trivial
  have hfetch : Only P (fetchUrl env kind url accessFailure) := by
    refine only_andThen (covered_note hP ?_) hsettle
    exact only_bind (covered_idle hP rfl) fun _ => trivial
  unfold getCachedUrl
  extract_lets key fresh locked
  have hlocked : Only P locked := by
    unfold locked
    split
    · trivial
    refine only_andThen (covered_idle hP rfl) fun _ => only_bind (covered_idle hP rfl) fun recent => ?_
    cases recent with
    | some resp => trivial
    | none =>
      refine only_bind (covered_idle hP rfl) fun now => only_bind (covered_idle hP rfl) fun found => ?_
      cases found with
      | none => exact hfetch
      | some rec =>
        simp only
        split
        · trivial
        · exact hdrop _ hfetch
  refine only_bind (covered_idle hP rfl) fun now => only_bind (covered_idle hP rfl) fun found => ?_
  cases found with
  | none => exact hlocked
  | some rec =>
    simp only
    split
    · trivial
    split
    · exact hdrop _ hlocked
    · exact hlocked

theorem covered_getNvidiaOcsp (hF : ∀ f ∈ boundedFamilies .nvidiaOcsp, F f) (chrono : Ocsp.Chrono)
    (body : List UInt8) : Only P (getNvidiaOcspRequest env chrono cfg body) := by
  have hsettle : ∀ cacheKey key resp, Only P (settleOcsp chrono cfg cacheKey key resp) := by
    intro cacheKey key resp
    unfold settleOcsp
    split
    · exact only_bind (only_call (hP.remember .nvidiaOcsp hF _ _)) fun _ => trivial
    refine only_bind (covered_idle hP rfl) fun now => ?_
    split
    · trivial
    split
    · trivial
    refine only_bind (covered_idle hP rfl) fun fetchedAt => ?_
    exact only_bind (only_call (hP.saveOcsp hF _)) fun _ => trivial
  have hfetch : ∀ cacheKey, Only P (fetchOcsp chrono cfg cacheKey body) := by
    intro cacheKey
    refine only_andThen (covered_note hP ?_) (hsettle cacheKey _)
    unfold postOcsp
    split
    · trivial
    · exact only_bind (covered_idle hP rfl) fun _ => trivial
  refine only_andThen (p := settled (Ocsp.parseRequest env body)) trivial fun cacheKey => ?_
  have hdrop : ∀ (next : Attempt Ocsp.AmdKdsResponse), Only P next →
      Only P ((act (.deleteKey (Ocsp.storeKey cacheKey))).bind fun _ => next) := fun next hnext =>
    only_bind (only_call (hP.drop .nvidiaOcsp hF _)) fun _ => hnext
  extract_lets key locked
  have hlocked : Only P locked := by
    unfold locked
    split
    · trivial
    refine only_andThen (covered_idle hP rfl) fun _ => only_bind (covered_idle hP rfl) fun recent => ?_
    cases recent with
    | some resp => trivial
    | none =>
      refine only_bind (covered_idle hP rfl) fun now => only_bind (covered_idle hP rfl) fun found => ?_
      cases found with
      | none => exact hfetch cacheKey
      | some rec =>
        simp only
        split
        · trivial
        · exact hdrop _ (hfetch cacheKey)
  refine only_bind (covered_idle hP rfl) fun now => only_bind (covered_idle hP rfl) fun found => ?_
  cases found with
  | none => exact hlocked
  | some rec =>
    simp only
    split
    · trivial
    split
    · exact hdrop _ hlocked
    · exact hlocked

/-- A request performs only operations that write its own families. -/
theorem covered_body (chrono : Ocsp.Chrono) {q : Request} (hF : ∀ f ∈ q.writes cfg.mode, F f) :
    Only P (q.body env chrono cfg) := by
  have hlazy : ∀ {fs : List Family}, (∀ f ∈ whenLazy cfg.mode fs, F f) → cfg.mode = .lazy →
      ∀ f ∈ fs, F f := by
    intro fs h hmode
    simpa [whenLazy, hmode] using h
  cases q with
  | getPckcert q version =>
    simp only [Request.writes, List.forall_mem_append, List.forall_mem_cons] at hF
    obtain ⟨⟨hrec, hpool, -⟩, htcb⟩ := hF
    refine covered_getPckcert hP (fun hmode => ?_) hrec hpool q version
    simpa [fillFamilies, hrec, hpool] using hlazy htcb hmode
  | getTcb prodType fmspc version update =>
    refine covered_lookupDocument hP (covered_idle hP rfl) (only_fetchTcb (covered_fetched hP _))
      fun hmode rec => ?_
    exact covered_putIfCacheable (hP.tcb (hlazy hF hmode _ (by simp)) rec)
  | getIdentity enclaveId version update =>
    refine covered_lookupDocument hP (covered_idle hP rfl)
      (only_fetchIdentity (covered_fetched hP _)) fun hmode rec => ?_
    exact covered_putIfCacheable (hP.identity (hlazy hF hmode _ (by simp)) rec)
  | getPckcrl ca version =>
    refine covered_lookupDocument hP (covered_idle hP rfl) (only_parsed (covered_fetched hP _) _)
      fun hmode rec => ?_
    exact covered_putIfCacheable (hP.pckcrl (hlazy hF hmode _ (by simp)) rec)
  | getRootcacrl version =>
    refine covered_lookupDocument hP (covered_idle hP rfl) (only_parsed (covered_fetched hP _) _)
      fun hmode rec => ?_
    exact only_call (hP.rootcacrl (hlazy hF hmode _ (by simp)) rec)
  | getCrl uri version =>
    exact covered_getCrl hP (fun hmode => hlazy hF hmode _ (by simp)) uri version
  | getAmdKds path =>
    have hkind : ∀ f ∈ boundedFamilies .amdKds, F f := hF
    exact only_andThen (p := settled (Paths.canonicalizeAmdKds path)) trivial fun _ =>
      covered_getCachedUrl hP hkind _ _ _
  | getNvidiaRim path =>
    have hkind : ∀ f ∈ boundedFamilies .nvidiaRim, F f := hF
    exact only_andThen (p := settled (Paths.canonicalizeNvidiaRim path)) trivial fun _ =>
      covered_getCachedUrl hP hkind _ _ _
  | getNvidiaOcsp body => exact covered_getNvidiaOcsp hP hF chrono body
  | getNvidiaNras body => exact covered_nras hP body
  | registerPlatform p update => exact covered_registerPlatform hP update hF
  | refresh typ fmspc => exact covered_refresh hP hF
  | scheduledRefresh =>
    simp only [Request.writes, List.forall_mem_append] at hF
    obtain ⟨hbounded, hdocs⟩ := hF
    refine only_bind (covered_idle hP rfl) fun now => covered_scheduled hP (fun hmode => ?_) ?_
    · simpa [hmode] using hdocs
    · refine hP.sweep (fun kind f hf => hbounded f (List.mem_flatMap.mpr ⟨kind, ?_, hf⟩)) now
      cases kind <;> decide
  | refreshPool pool => exact covered_refreshPlatformPool hP hF pool
  | putPlatformCollateral body version =>
    simp only [Request.writes, List.forall_mem_append, List.forall_mem_cons] at hF
    obtain ⟨⟨hrec, hpool, -⟩, hdocs⟩ := hF
    exact covered_putPlatformCollateral hP hdocs hrec hpool body version

end Proxied

end Pccs.Cache
