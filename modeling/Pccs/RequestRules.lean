import Pccs.CacheRules
import Pccs.Lookups

/-!
# What the requests for platforms keep

The requests that read and write pools and records: the GET of a certificate, the
registration, the refreshes and `PUT /platformcollateral`. Each keeps what
`Duties` asks of its operations, and so does every run of any number of them.
-/
namespace Pccs.Cache

open Text Encoding Json Fallible KeyValue Store Process Runs Coherence

section Sweep

/-- The deletion of a row of another kind. -/
theorem inert_delete {env : Env} {kind : String} {key : List UInt8} (hkey : asBytes kind <+: key)
    (hp : Keys.Apart kind Keys.pckcertPrefix) (hq : Keys.Apart kind Keys.platformPrefix) :
    Inert env (.delete key) := by
  obtain ⟨rest, rfl⟩ := hkey
  have hne : ∀ {other : String}, Keys.Apart kind other → ∀ t,
      asBytes kind ++ rest ≠ Keys.under other t := by
    intro other h t
    rw [Keys.under, asBytes_append]
    exact Keys.append_ne h.1 h.2 _ _
  constructor
  · exact fun _ _ _ _ => hne hp _
  · exact fun _ _ => hne hq _
  · intro pool h
    cases h
  · intro rec h
    cases h

theorem inert_unindex {env : Env} (db : Database) (kind : Fifo.Kind) (entry : List UInt8) :
    ∀ w ∈ (Fifo.unindex db kind entry).1, Inert env w := by
  intro w hw
  unfold Fifo.unindex at hw
  split at hw
  · cases hw
  · obtain hw | hw := List.mem_append.mp hw
    · obtain ⟨t, _, rfl⟩ := List.mem_map.mp hw
      refine @inert_delete _ Keys.fifoOrder _ ?_ (by decide) (by decide)
      rw [Fifo.fifoOrderKey, Fifo.fifoOrderPrefix, asBytes_append, List.append_assoc]
      exact List.prefix_append _ _
    · cases List.mem_singleton.mp hw
      exact inert_delete (List.prefix_append (asBytes Keys.fifoPos) _) (by decide) (by decide)

theorem kind_apart (kind : Fifo.Kind) :
    Keys.Apart kind.name Keys.pckcertPrefix ∧ Keys.Apart kind.name Keys.platformPrefix := by
  cases kind <;> decide

/-- A sweep of one kind touches neither pools nor records. -/
theorem sweepPrefix_untouched (env : Env) (s : Fifo.FifoStore) (kind : Fifo.Kind)
    (expired : Row → Bool) : Untouched env s.db (Fifo.sweepPrefix s kind expired).db := by
  unfold Fifo.sweepPrefix
  simp only
  split
  · exact .refl s.db
  refine ⟨_, rfl, fun w hw => ?_⟩
  obtain hw | hw := List.mem_append.mp hw
  · obtain ⟨key, hkey, hw⟩ := List.mem_flatMap.mp hw
    obtain rfl | hw := List.mem_cons.mp hw
    · obtain ⟨row, hrow, rfl⟩ := List.mem_map.mp hkey
      have hscan := (mem_scanPrefix s.db _ row.1 row.2).mp (List.mem_filter.mp hrow).1
      exact inert_delete hscan.2 (kind_apart kind).1 (kind_apart kind).2
    · exact inert_unindex s.db kind key w hw
  · split at hw
    · cases List.mem_singleton.mp hw
      exact @inert_put _ Keys.fifoCount _ _ (by decide) (by decide) (by simp) (by simp)
    · cases hw

theorem sweepExpired_untouched (env : Env) (cfg : Config) (s : Database) (now : Nat) :
    Untouched env s (sweepExpired cfg ⟨s, 0, 0⟩ now).db := by
  unfold sweepExpired
  simp only
  refine .trans ?_ (sweepPrefix_untouched env _ _ _)
  refine .trans ?_ (sweepPrefix_untouched env _ _ _)
  exact sweepPrefix_untouched env ⟨s, 0, 0⟩ _ _

end Sweep

section Gets

variable {env : Env} {cfg : Config} {P : Policy env cfg} {role : Role} {past : Past}

/-- Looking at the clock is harmless. -/
theorem keeps_silent (hP : Duties P) {o : Op} (ho : o.silent = true) (past : Past) (s : Database)
    (r : o.Res) (s' : Database) (hs : P.inv s) (hr : P.performs s o r s') :
    P.inv s' ∧ (P.keeps role).guar past s o r s' := by
  obtain rfl : s' = s := silent_same ho (P.performed hr)
  obtain ⟨hinv, hguar⟩ := hP.untouched role past s' o r s' (publishes_of_silent ho) hs (.refl s')
  exact ⟨hinv, spawnOk_of_silent ho, hguar⟩

/-- What is guaranteed of an operation does not depend on what others did before. -/
theorem keeps_mono (hP : Duties P) (past past' : Past) (s : Database) (o : Op) (r : o.Res)
    (s' : Database) (hsub : past.Sublist past') (h : (P.keeps role).guar past s o r s') :
    (P.keeps role).guar past' s o r s' :=
  ⟨h.1.mono hsub, hP.mono _ _ _ s o r s' hsub h.2⟩

theorem safe_select (hP : Duties P) {qeid cpusvn pcesvn pceid : String} (hname : P.name pceid) :
    Safe (P.keeps role) (fun _ r => ∀ rec, r = .ok rec → P.good qeid cpusvn pcesvn pceid rec)
      (selectLocally qeid pceid cpusvn pcesvn) past := by
  refine safe_call fun s r s' hs hr => ?_
  obtain ⟨hinv, hguar, hgood⟩ := hP.select role past s r s' qeid pceid cpusvn pcesvn hs hname hr
  exact ⟨hinv, ⟨trivial, hguar⟩, hgood⟩

/-- A pool that was read is of the platform that was asked for. -/
theorem safe_getPlatformPool (hP : Duties P) (qeid pceid : String) :
    Safe (P.keeps role) (fun past' found => past' = ⟨.getPlatformPool qeid pceid, found⟩ :: past ∧
        ∀ pool, found = some pool → Same pool.qeId qeid ∧ Same pool.pceId pceid)
      (act (.getPlatformPool qeid pceid)) past := by
  refine safe_mono (safe_silent hP rfl) fun past' found _ h => ⟨h.1, ?_⟩
  obtain ⟨_, s, _, hread, _⟩ := h
  intro pool hpool
  rw [hpool] at hread
  exact (getPlatformPool_eq_some.mp hread.symm).2

theorem safe_getPckcert (hP : Duties P) (qeid cpusvn pcesvn pceid : String) :
    Safe (P.keeps role) (fun _ found => ∀ rec, found = some rec → P.good qeid cpusvn pcesvn pceid rec)
      (act (.getPckcert qeid cpusvn pcesvn pceid)) past := by
  refine safe_mono (safe_silent hP rfl) fun past' found _ h rec hrec => ?_
  obtain ⟨_, s, hs, hread, _⟩ := h
  rw [hrec] at hread
  exact hP.hit s qeid cpusvn pcesvn pceid rec hs hread.symm

theorem refetchable_eq_some {found : Option PlatformPool} {cpusvn pcesvn : String}
    {pool : PlatformPool} (h : refetchable found cpusvn pcesvn = some pool) : found = some pool :=
  (Option.filter_eq_some_iff.mp h).1

theorem safe_refetch (hP : Duties P) {pool : PlatformPool} {asked asked' : String}
    (cpusvn pcesvn : String) (hintel : cfg.isIntel = true) (hname : P.name pool.pceId)
    (hread : ⟨.getPlatformPool asked asked', some pool⟩ ∈ past)
    (hids : Same pool.qeId asked ∧ Same pool.pceId asked') :
    Safe (P.keeps .get) (fun _ r => ∀ rec, r = .ok (some rec) →
      P.good pool.qeId cpusvn pcesvn pool.pceId rec) (refetch env cfg pool cpusvn pcesvn) past := by
  refine safe_andThen (safe_fetchPool hP _ _ _) (fun past₁ resp _ hresp => ?_)
    fun _ _ _ _ _ h => by cases h
  refine safe_mono (safe_publishPckcerts hP _ hname
    (.refetch asked asked' pool hread rfl rfl hids.1 hids.2) (.inl hintel) (hresp resp rfl)) ?_
  intro _ r _ hgood rec hr
  obtain ⟨level, hlevel, hrec⟩ := hgood rec hr
  cases hlevel
  exact hrec

/-- The time may run out before any operation of the re-fetch. -/
theorem safe_timedRefetch (hP : Duties P) {pool : PlatformPool} {asked asked' : String}
    (cpusvn pcesvn : String) (hintel : cfg.isIntel = true) (hname : P.name pool.pceId)
    (hread : ⟨.getPlatformPool asked asked', some pool⟩ ∈ past)
    (hids : Same pool.qeId asked ∧ Same pool.pceId asked') :
    Safe (P.keeps .get) (fun _ out => ∀ r, out = some r → ∀ rec, r = .ok (some rec) →
      P.good pool.qeId cpusvn pcesvn pool.pceId rec)
      (within .elapsed id (refetch env cfg pool cpusvn pcesvn)) past :=
  safe_within (.refl past) (keeps_silent hP rfl) (keeps_mono hP) (fun _ _ _ _ h => h)
    (safe_refetch hP cpusvn pcesvn hintel hname hread hids)

theorem safe_refetchLocked (hP : Duties P) {qeid pceid : String} (cpusvn pcesvn platform : String)
    (hintel : cfg.isIntel = true) (hname : P.name pceid) :
    Safe (P.keeps .get) (fun _ r => ∀ rec, r = some rec → P.good qeid cpusvn pcesvn pceid rec)
      (refetchLocked env cfg qeid pceid cpusvn pcesvn platform) past := by
  have hnone : ∀ past', Safe (P.keeps .get)
      (fun _ r => ∀ rec, r = some rec → P.good qeid cpusvn pcesvn pceid rec) (.ret none) past' :=
    fun _ rec h => by cases h
  refine safe_bind (safe_getPlatformPool hP qeid pceid) fun past₁ again _ hread => ?_
  split
  · exact hnone past₁
  rename_i pool hpool
  rw [refetchable_eq_some hpool] at hread
  obtain ⟨hpast, hids⟩ := hread
  obtain ⟨hqe, hpce⟩ := hids pool rfl
  refine safe_bind (safe_silent hP rfl) fun past₂ due hsub₂ _ => ?_
  split
  · exact hnone past₂
  refine safe_bind (safe_silent hP rfl) fun past₃ _ hsub₃ _ => ?_
  have hmem : ⟨.getPlatformPool qeid pceid, some pool⟩ ∈ past₃ :=
    (hsub₂.trans hsub₃).subset (by rw [hpast]; exact List.mem_cons_self)
  have hpoolName := hP.name_congr _ _ hpce.symm hname
  refine safe_bind (safe_timedRefetch hP cpusvn pcesvn hintel hpoolName hmem ⟨hqe, hpce⟩)
    fun past₄ out _ hout => ?_
  split
  · rename_i rec
    intro found hfound
    cases hfound
    exact hP.good_congr _ _ _ _ _ _ _ hqe hpce (hout _ rfl found rfl)
  · exact hnone past₄

theorem refetchGate_intel {version : Nat} (h : refetchGate cfg version = true) :
    cfg.isIntel = true := by
  simp only [refetchGate, Bool.and_eq_true] at h
  exact h.1.1.1.2

theorem safe_refetchPool (hP : Duties P) {qeid pceid : String} (cpusvn pcesvn : String)
    (version : Nat) (hname : P.name pceid) :
    Safe (P.keeps .get) (fun _ r => ∀ rec, r = some rec → P.good qeid cpusvn pcesvn pceid rec)
      (refetchPoolForNewRawTcb env cfg qeid pceid cpusvn pcesvn version) past := by
  have hnone : ∀ past', Safe (P.keeps .get)
      (fun _ r => ∀ rec, r = some rec → P.good qeid cpusvn pcesvn pceid rec) (.ret none) past' :=
    fun _ rec h => by cases h
  unfold refetchPoolForNewRawTcb
  split
  · rename_i hgate
    refine safe_bind (safe_silent hP rfl) fun past₁ found _ _ => ?_
    split
    · exact hnone past₁
    refine safe_bind (safe_silent hP rfl) fun past₂ locked _ _ => ?_
    cases locked with
    | error e => exact hnone past₂
    | ok _ => exact safe_refetchLocked hP cpusvn pcesvn _ (refetchGate_intel hgate) hname
  · exact hnone past

theorem safe_note (hP : Duties P) {α : Type} {key : List UInt8} {p : Attempt α}
    {good : α → Prop} (hp : Safe (P.keeps role) (fun _ r => ∀ a, r = .ok a → good a) p past) :
    Safe (P.keeps role) (fun _ r => ∀ a, r = .ok a → good a) (note key p) past := by
  refine safe_bind hp fun past₁ r _ hr => ?_
  cases r with
  | ok a => exact hr
  | error e =>
    refine safe_bind (safe_silent hP rfl) fun _ _ _ _ => ?_
    intro a h
    cases h

variable {q : Validate.PckcertQuery}

/-- The record is for the level the GET asks for. -/
def GetGood (P : Policy env cfg) (q : Validate.PckcertQuery) (r : Except PccsError PckCertRecord) :
    Prop :=
  ∀ rec, r = .ok rec → P.good q.qeid q.cpusvn q.pcesvn q.pceid rec

theorem safe_fillForGet (hP : Duties P) (hname : P.name q.pceid) (version : Nat) :
    Safe (P.keeps .get) (fun _ r => GetGood P q r) (fillForGet env cfg q version) past := by
  unfold fillForGet
  split
  · intro rec h
    cases h
  split
  · intro rec h
    cases h
  refine safe_bind (safe_getPlatformPool hP q.qeid q.pceid) fun past₁ current _ hread => ?_
  simp only
  split
  · exact safe_select hP hname
  · rename_i hlocal
    refine safe_note hP ?_
    have hnew : cfg.isIntel = true → current = none := by
      intro hintel
      cases current with
      | none => rfl
      | some pool => exact absurd ⟨hintel, rfl⟩ hlocal
    have horigin : Origin cfg past₁ q.qeid q.pceid .get
        ⟨q.encryptedPpid.getD "", "", current.map PlatformPool.credentials, true⟩ :=
      .get current _ (by rw [hread.1]; exact List.mem_cons_self) hnew
    refine safe_andThen (safe_fillPckcert hP q.cpusvn q.pcesvn hname horigin)
      (fun _ found _ hfound => ?_) fun _ _ _ _ _ h => by cases h
    intro rec hrec
    exact hfound rec (congrArg _ (require_eq_ok.mp hrec))

theorem safe_getUncached (hP : Duties P) (hname : P.name q.pceid) (version : Nat) :
    Safe (P.keeps .get) (fun _ r => GetGood P q r) (getUncached env cfg q version) past := by
  refine safe_andThen (safe_silent hP rfl) (fun past₁ _ _ _ => ?_) fun _ _ _ _ _ h => by cases h
  refine safe_bind (safe_getPckcert hP _ _ _ _) fun past₂ found _ hfound => ?_
  cases found with
  | some rec =>
    intro rec' h
    cases h
    exact hfound _ rfl
  | none => exact safe_fillForGet hP hname version

theorem safe_getKnown (hP : Duties P) (hname : P.name q.pceid) (version : Nat) :
    Safe (P.keeps .get) (fun _ r => GetGood P q r) (getKnown env cfg q version) past := by
  refine safe_bind (safe_refetchPool hP _ _ version hname) fun past₁ found _ hfound => ?_
  cases found with
  | some rec =>
    intro rec' h
    cases h
    exact hfound _ rfl
  | none =>
    refine safe_bind (safe_select hP hname) fun past₂ selected _ hselected => ?_
    cases selected with
    | ok rec => exact hselected
    | error e =>
      simp only
      split
      · intro rec h
        cases h
      · exact safe_getUncached hP hname version

/-- Whatever a GET returns is good, whichever way it took. -/
theorem safe_getPckcertRequest (hP : Duties P) (hname : P.name q.pceid) (version : Nat) :
    Safe (P.keeps .get) (fun _ r => GetGood P q r) (getPckcertRequest env cfg q version) past := by
  refine safe_bind (safe_silent hP rfl) fun past₁ known _ _ => ?_
  split
  · refine safe_bind (safe_getPckcert hP _ _ _ _) fun past₂ found _ hfound => ?_
    cases found with
    | some rec =>
      intro rec' h
      cases h
      exact hfound _ rfl
    | none => exact safe_getKnown hP hname version
  · exact safe_getUncached hP hname version

end Gets

section Registrations

variable {env : Env} {cfg : Config} {P : Policy env cfg} {past : Past} {p : RegisteredPlatform}

theorem inert_putPckcrl (env : Env) (rec : PckCrlRecord) : Inert env (putPckcrl env rec) :=
  inert_put (by decide) (by decide) (by simp) (by simp)

theorem inert_putIdentity (env : Env) (rec : IdentityRecord) : Inert env (putIdentity env rec) :=
  inert_put (by decide) (by decide) (by simp) (by simp)

theorem inert_putCrl (env : Env) (uri : String) (crl : List UInt8) :
    Inert env (putCrl env uri crl) :=
  inert_put (by decide) (by decide) (by simp) (by simp)

/-- A manifest that is taken over does not change the platform. -/
theorem safe_isCached (hP : Duties P) :
    Safe (P.keeps .other) (fun past' out => past.Sublist past' ∧ out.2.qeId = p.qeId ∧
      out.2.pceId = p.pceId) (isCached p) past := by
  refine safe_bind (safe_silent hP rfl) fun past₁ found hsub₁ _ => ?_
  cases found with
  | none => exact ⟨hsub₁, rfl, rfl⟩
  | some platform =>
    simp only
    split
    · exact safe_bind (safe_silent hP rfl) fun past₂ rec hsub₂ _ => ⟨hsub₁.trans hsub₂, rfl, rfl⟩
    · exact ⟨hsub₁, rfl, rfl⟩

theorem safe_fillPckcrl (hP : Duties P) (ca : String) :
    Safe (P.keeps .other) (fun _ _ => True) ((act (.getPckcrl ca)).bind fun
      | some _ => .ret ()
      | none => (fetchPckcrl cfg ca).bind fun
        | .ok r => if cacheable r.issuerChain then act (.put (putPckcrl env r)) else .ret ()
        | .error _ => .ret ()) past := by
  refine safe_bind (safe_silent hP rfl) fun _ found _ _ => ?_
  cases found with
  | some rec => trivial
  | none =>
    refine safe_bind (safe_fetchPckcrl hP ca) fun _ r _ _ => ?_
    cases r with
    | error e => trivial
    | ok r =>
      simp only
      split
      · exact safe_document hP (inert_putPckcrl env r)
      · trivial

theorem safe_fillIdentity (hP : Duties P) (w : Nat × UpdateType) :
    Safe (P.keeps .other) (fun _ _ => True) ((act (.getIdentity w.1 cfg.pcsVersion w.2)).bind fun
      | some _ => .ret ()
      | none => (fetchIdentity env cfg w.1 cfg.pcsVersion w.2).bind fun
        | .ok r => if cacheable r.issuerChain then act (.put (putIdentity env r)) else .ret ()
        | .error _ => .ret ()) past := by
  refine safe_bind (safe_silent hP rfl) fun _ found _ _ => ?_
  cases found with
  | some rec => trivial
  | none =>
    refine safe_bind (safe_fetchIdentity hP _ _ _) fun _ r _ _ => ?_
    cases r with
    | error e => trivial
    | ok r =>
      simp only
      split
      · exact safe_document hP (inert_putIdentity env r)
      · trivial

theorem safe_fillQvCollateral (hP : Duties P) (update : UpdateType) :
    Safe (P.keeps .other) (fun _ _ => True) (fillQvCollateral env cfg update) past := by
  unfold fillQvCollateral
  split
  · trivial
  refine safe_bind (safe_collect _ fun ca _ _ _ => safe_fillPckcrl hP ca) fun _ _ _ _ => ?_
  refine safe_bind (safe_collect _ fun w _ _ _ => safe_fillIdentity hP w) fun _ _ _ _ => ?_
  refine safe_bind (safe_silent hP rfl) fun _ found _ _ => ?_
  cases found with
  | some crl => trivial
  | none =>
    refine safe_bind (safe_fetchRootcacrl hP) fun _ r _ _ => ?_
    cases r with
    | error e => trivial
    | ok r => exact safe_document hP (inert_putRootcacrl env r)

theorem safe_registerUncached (hP : Duties P) (hname : P.name p.pceId)
    (current : Option PlatformPool) (hread : ⟨.getPlatformPool p.qeId p.pceId, current⟩ ∈ past) :
    Safe (P.keeps .other) (fun _ _ => True)
      (registerUncached env cfg p (current.map PlatformPool.credentials)) past := by
  have hfill : ∀ past', past.Sublist past' → Safe (P.keeps .other) (fun _ _ => True)
      (fillRegistered env cfg p (current.map PlatformPool.credentials)) past' := by
    intro past' hsub
    have horigin : Origin cfg past' p.qeId p.pceId .other
        ⟨p.encPpid, p.platformManifest, current.map PlatformPool.credentials, false⟩ :=
      .register current _ _ (hsub.subset hread)
    exact safe_mono (safe_fillPckcert hP p.cpuSvn p.pceSvn hname horigin) fun _ _ _ _ => trivial
  unfold registerUncached
  simp only
  split
  · exact safe_bind (safe_document hP (inert_registerPlatform env _)) fun _ _ _ _ => trivial
  · refine safe_bind (safe_document hP (inert_registerPlatform env _)) fun past₁ _ hsub₁ _ => ?_
    refine safe_andThen (hfill past₁ hsub₁) (fun _ _ _ _ => ?_) fun _ _ _ _ => trivial
    exact safe_bind (safe_document hP (inert_deleteRegistered env _)) fun _ _ _ _ => trivial
  · exact safe_andThen (hfill past (.refl past)) (fun _ _ _ _ => trivial) fun _ _ _ _ => trivial

theorem safe_registerPlatformRequest (hP : Duties P) (hname : P.name p.pceId)
    (update : UpdateType) :
    Safe (P.keeps .other) (fun _ _ => True) (registerPlatformRequest env cfg p update) past := by
  refine safe_bind (safe_silent hP rfl) fun past₁ current _ hread => ?_
  refine safe_bind (safe_isCached hP) fun past₂ out hsub₂ hout => ?_
  obtain ⟨cached, p'⟩ := out
  obtain ⟨_, hqe, hpce⟩ := hout
  have hmem : ⟨.getPlatformPool p'.qeId p'.pceId, current⟩ ∈ past₂ := by
    rw [hqe, hpce]
    exact hsub₂.subset (by rw [hread.1]; exact List.mem_cons_self)
  have hregister : Safe (P.keeps .other) (fun _ _ => True)
      (if cached then .ret (.ok ())
        else registerUncached env cfg p' (current.map PlatformPool.credentials)) past₂ := by
    split
    · trivial
    · exact safe_registerUncached hP (hpce ▸ hname) current hmem
  refine safe_andThen hregister (fun _ _ _ _ => ?_) fun _ _ _ _ => trivial
  split
  · trivial
  · exact safe_bind (safe_fillQvCollateral hP update) fun _ _ _ _ => trivial

end Registrations

section Refreshes

variable {env : Env} {cfg : Config} {P : Policy env cfg} {past : Past}

theorem safe_mapErr {α : Type} {p : Attempt α} {post : Past → α → Prop} (e : PccsError)
    (hp : Safe (P.keeps .other) (fun past' r => ∀ a, r = .ok a → post past' a) p past) :
    Safe (P.keeps .other) (fun past' r => ∀ a, r = .ok a → post past' a) (mapErr p e) past := by
  refine safe_bind hp fun past₁ r _ hr => ?_
  cases r with
  | ok a => exact hr
  | error e' =>
    intro a h
    cases h

/-- A document that is fetched again and kept if it can be. -/
theorem safe_renew (hP : Duties P) {α : Type} {fetch : Attempt α}
    (hfetch : Safe (P.keeps .other) (fun _ _ => True) fetch past) (chain : α → String)
    (put : α → Write UInt8 Row) (hput : ∀ a, Inert env (put a)) (e : PccsError) :
    Safe (P.keeps .other) (fun _ _ => True) ((mapErr fetch e).andThen fun fresh =>
      if cacheable (chain fresh) then (act (.put (put fresh))).bind fun _ => .ret (.ok ())
      else .ret (.ok ())) past := by
  have hmapped := @safe_mapErr _ _ P past _ fetch (fun _ _ => True) e
    (safe_mono hfetch fun _ _ _ _ _ _ => trivial)
  refine safe_andThen hmapped (fun _ fresh _ _ => ?_) fun _ _ _ _ => trivial
  split
  · exact safe_bind (safe_document hP (hput fresh)) fun _ _ _ _ => trivial
  · trivial

theorem safe_refreshTcb (hP : Duties P) (rec : TcbRecord) :
    Safe (P.keeps .other) (fun _ _ => True) (refreshTcb env cfg rec) past := by
  unfold refreshTcb
  split
  · trivial
  · exact safe_renew hP (safe_fetchTcb hP _ _ _ _) TcbRecord.issuerChain (putTcb env)
      (inert_putTcb env) _

theorem safe_refreshIdentity (hP : Duties P) (w : Nat × UpdateType) :
    Safe (P.keeps .other) (fun _ _ => True) (refreshIdentity env cfg w) past := by
  refine safe_bind (safe_fetchIdentity hP _ _ _) fun _ r _ _ => ?_
  cases r with
  | error e => trivial
  | ok fresh =>
    simp only
    split
    · exact safe_bind (safe_document hP (inert_putIdentity env fresh)) fun _ _ _ _ => trivial
    · trivial

theorem safe_refreshRootcacrl (hP : Duties P) :
    Safe (P.keeps .other) (fun _ _ => True) (refreshRootcacrl cfg) past := by
  refine safe_bind (safe_silent hP rfl) fun _ had _ _ => ?_
  refine safe_bind (safe_fetchRootcacrl hP) fun _ r _ _ => ?_
  cases r with
  | error e => trivial
  | ok fresh => exact safe_bind (safe_document hP (inert_putRootcacrl env fresh)) fun _ _ _ _ => trivial

theorem safe_refreshCrl (hP : Duties P) (rec : CrlRecord) :
    Safe (P.keeps .other) (fun _ _ => True) (refreshCrl env cfg rec) past := by
  unfold refreshCrl
  split
  · refine safe_andThen (safe_fetchCrl hP rec.uri) (fun _ fresh _ _ => ?_) fun _ _ _ _ => trivial
    exact safe_bind (safe_document hP (inert_putCrl env rec.uri fresh)) fun _ _ _ _ => trivial
  · trivial

theorem safe_refreshCollateral (hP : Duties P) :
    Safe (P.keeps .other) (fun _ _ => True) (refreshCollateral env cfg) past := by
  unfold refreshCollateral
  split
  · trivial
  refine safe_bind (safe_silent hP rfl) fun _ crls _ _ => ?_
  refine safe_andThen (safe_each crls fun rec _ _ _ => safe_renew hP (safe_fetchPckcrl hP rec.ca)
    PckCrlRecord.issuerChain (putPckcrl env) (inert_putPckcrl env) _) (fun _ _ _ _ => ?_)
    fun _ _ _ _ => trivial
  refine safe_bind (safe_silent hP rfl) fun _ tcbs _ _ => ?_
  refine safe_andThen (safe_each tcbs fun rec _ _ _ => safe_refreshTcb hP rec) (fun _ _ _ _ => ?_)
    fun _ _ _ _ => trivial
  refine safe_andThen (safe_each _ fun w _ _ _ => safe_refreshIdentity hP w) (fun _ _ _ _ => ?_)
    fun _ _ _ _ => trivial
  refine safe_andThen (safe_refreshRootcacrl hP) (fun _ _ _ _ => ?_) fun _ _ _ _ => trivial
  refine safe_bind (safe_silent hP rfl) fun _ crls _ _ => ?_
  exact safe_each crls fun rec _ _ _ => safe_refreshCrl hP rec

variable {pool : PlatformPool}

theorem Listed.mono {past past' : Past} (hsub : past.Sublist past') (h : Listed past pool) :
    Listed past' pool := by
  obtain ⟨pools, hmem, hpool⟩ := h
  exact ⟨pools, hsub.subset hmem, hpool⟩

/-- A listing of the store: its pools have platform names. -/
theorem safe_listPlatformPools (hP : Duties P) :
    Safe (P.keeps .other) (fun past' pools => ∀ pool ∈ pools, Listed past' pool ∧
      P.name pool.pceId) (act .listPlatformPools) past := by
  refine safe_mono (safe_silent hP rfl) fun past' pools _ h pool hpool => ?_
  obtain ⟨hpast, s, hs, hread, _⟩ := h
  rw [hread] at hpool
  refine ⟨⟨pools, by rw [hpast]; exact List.mem_cons_self, by rw [hread]; exact hpool⟩, ?_⟩
  exact hP.listed s pool hs hpool

theorem safe_refreshPlatformPool (hP : Duties P) (hlisted : Listed past pool)
    (hname : P.name pool.pceId) :
    Safe (P.keeps .other) (fun _ _ => True) (refreshPlatformPool env cfg pool) past := by
  have hfetch := safe_mapErr PccsError.noCacheData
    (@safe_fetchPool env cfg P .other past hP pool.encPpid pool.platformManifest pool.pceId)
  refine safe_andThen hfetch (fun past₁ resp hsub₁ hresp => ?_) fun _ _ _ _ => trivial
  refine safe_andThen (safe_validatePool hP _ _ _ _ _) (fun past₂ fresh hsub₂ hfresh => ?_)
    fun _ _ _ _ => trivial
  refine safe_andThen (safe_fetchTcb hP _ _ _ _) (fun past₃ tcb hsub₃ _ => ?_)
    fun _ _ _ _ => trivial
  refine safe_call fun s r s' hs hr => ?_
  obtain ⟨hinv, hguar⟩ := hP.refreshed past₃ past s r s' pool resp fresh tcb hs hname hlisted
    ((hresp resp rfl).mono (hsub₂.trans hsub₃)) (hfresh fresh rfl) hr
  exact ⟨hinv, ⟨trivial, hguar⟩, trivial⟩

theorem safe_refreshLevel (hP : Duties P) (hmirror : cfg.isIntel = false)
    (hlisted : Listed past pool) (hname : P.name pool.pceId) (raw : RawTcb) :
    Safe (P.keeps .other) (fun _ _ => True) (refreshLevel cfg pool raw) past := by
  refine safe_bind (safe_fetch hP _ _) fun past₁ r hsub₁ hr => ?_
  cases r with
  | error e => trivial
  | ok fresh =>
    obtain ⟨http, hhttp, hparse⟩ := hr fresh rfl
    simp only
    split
    · refine safe_call fun s r s' hs hr => ?_
      obtain ⟨hinv, hguar⟩ := hP.merge hmirror .other past₁ past s r s' _ _ _ _ _ http fresh _ hs
        hname (.refresh pool hlisted rfl rfl) hhttp hparse hr
      exact ⟨hinv, ⟨trivial, hguar⟩, trivial⟩
    · trivial

theorem safe_refreshPool (hP : Duties P) (hlisted : Listed past pool) (hname : P.name pool.pceId) :
    Safe (P.keeps .other) (fun _ _ => True) (refreshPool env cfg pool) past := by
  unfold refreshPool
  split
  · exact safe_refreshPlatformPool hP hlisted hname
  · rename_i hmirror
    have hintel : cfg.isIntel = false := by
      simp only [not_or, Bool.not_eq_true] at hmirror
      exact hmirror.1
    exact safe_each _ fun raw _ _ hsub => safe_refreshLevel hP hintel (hlisted.mono hsub) hname raw

theorem safe_refreshCerts (hP : Duties P) (fmspc : String) :
    Safe (P.keeps .other) (fun _ _ => True) (refreshCerts env cfg fmspc) past := by
  unfold refreshCerts
  split
  · trivial
  refine safe_bind (safe_listPlatformPools hP) fun past₁ pools _ hpools => ?_
  refine safe_each _ fun pool hpool past₂ hsub => ?_
  obtain ⟨hlisted, hname⟩ := hpools pool (List.mem_filter.mp hpool).1
  exact safe_refreshPool hP (hlisted.mono hsub) hname

theorem safe_refreshRequest (hP : Duties P) (typ fmspc : Option String) :
    Safe (P.keeps .other) (fun _ _ => True) (refreshRequest env cfg typ fmspc) past := by
  have hsettled : ∀ {α : Type} (r : Except PccsError α) (past' : Past),
      Safe (P.keeps .other) (fun _ _ => True) (settled r) past' := fun _ _ => trivial
  refine safe_andThen (hsettled _ past) (fun past₁ _ _ _ => ?_) fun _ _ _ _ => trivial
  cases typ with
  | none => exact safe_refreshCollateral hP
  | some typ =>
    refine safe_andThen (hsettled _ past₁) (fun _ fmspc _ _ => ?_) fun _ _ _ _ => trivial
    exact safe_refreshCerts hP fmspc

/-- A task is started with a pool of the listing. -/
theorem safe_spawnRefresh (hP : Duties P) (hlisted : Listed past pool) (hname : P.name pool.pceId) :
    Safe (P.keeps .other) (fun _ _ => True) (act (.spawnRefresh pool)) past := by
  refine safe_call fun s r s' hs hr => ?_
  obtain rfl := P.performed hr
  obtain ⟨hinv, hguar⟩ := hP.untouched .other past s' (.spawnRefresh pool) r s' rfl hs (.refl s')
  exact ⟨hinv, ⟨⟨hlisted, hname⟩, hguar⟩, trivial⟩

theorem safe_refreshPlatformPools (hP : Duties P) :
    Safe (P.keeps .other) (fun _ _ => True) (refreshPlatformPools cfg) past := by
  unfold refreshPlatformPools
  split
  · refine safe_bind (safe_listPlatformPools hP) fun past₁ pools _ hpools => ?_
    refine safe_bind (safe_silent hP rfl) fun past₂ recently hsub₂ _ => ?_
    refine safe_bind (safe_collect _ fun pool hpool past₃ hsub₃ => ?_) fun _ _ _ _ => trivial
    obtain ⟨hlisted, hname⟩ := hpools pool (List.mem_filter.mp hpool).1
    exact safe_spawnRefresh hP (hlisted.mono (hsub₂.trans hsub₃)) hname
  · trivial

theorem safe_sweepExpired (hP : Duties P) (now : Nat) :
    Safe (P.keeps .other) (fun _ _ => True) (act (.sweepExpired now)) past := by
  refine safe_call fun s r s' hs hr => ?_
  obtain rfl := P.performed hr
  obtain ⟨hinv, hguar⟩ := hP.untouched .other past s (.sweepExpired now) r _ rfl hs
    (sweepExpired_untouched env cfg s now)
  exact ⟨hinv, ⟨trivial, hguar⟩, trivial⟩

theorem safe_scheduledRefresh (hP : Duties P) :
    Safe (P.keeps .other) (fun _ _ => True) (scheduledRefresh env cfg) past := by
  refine safe_bind (safe_silent hP rfl) fun _ now _ _ => ?_
  refine safe_bind (safe_sweepExpired hP now) fun _ _ _ _ => ?_
  split
  · trivial
  refine safe_bind (safe_refreshCollateral hP) fun _ _ _ _ => ?_
  exact safe_bind (safe_refreshPlatformPools hP) fun _ _ _ _ => trivial

theorem safe_putPlatformCollateralRequest (hP : Duties P) (body : Value) (version : Nat) :
    Safe (P.keeps .other) (fun _ _ => True) (putPlatformCollateralRequest env body version) past := by
  have hchecked : Safe (P.keeps .other)
      (fun _ r => r = .ok () → Validate.platformCollateral body version = .ok ())
      (settled (Validate.platformCollateral body version)) past := fun h => h
  refine safe_andThen hchecked (fun past₁ _ _ hschema => ?_) fun _ _ _ _ => trivial
  refine safe_bind (safe_documents hP _ (documentWrites_inert env body version)) fun past₂ _ _ _ => ?_
  refine safe_call fun s r s' hs hr => ?_
  obtain ⟨hinv, hguar⟩ := hP.platforms past₂ s r s' body version hs (hschema rfl) hr
  exact ⟨hinv, ⟨trivial, hguar⟩, trivial⟩

end Refreshes

section Runs

variable {env : Env} {chrono : Ocsp.Chrono} {cfg : Config} {P : Policy env cfg}

/-- Requests for platforms whose PCE IDs have an admissible name. -/
def Request.OnPlatforms (name : String → Prop) : Request → Prop
  | .getPckcert q _ => name q.pceid
  | .registerPlatform p _ => name p.pceId
  | .refresh _ _ => True
  | .scheduledRefresh => True
  | .putPlatformCollateral _ _ => True
  | _ => False

def Request.role : Request → Role
  | .getPckcert _ _ => .get
  | _ => .other

/-- What holds of the result of a request. -/
def Replied (P : Policy env cfg) : (q : Request) → q.Reply → Prop
  | .getPckcert q _, r => GetGood P q r
  | _, _ => True

/-- The requests over a policy's operations. -/
def Policy.system (P : Policy env cfg) (chrono : Ocsp.Chrono) (accepts : Request → Prop) :
    System Op Op.Res Database Request :=
  { cacheSystem env chrono cfg accepts with perform := P.performs }

theorem safe_body (hP : Duties P) {past : Past} {q : Request} (hq : q.OnPlatforms P.name) :
    Safe (P.keeps q.role) (fun _ r => Replied P q r) (q.body env chrono cfg) past := by
  cases q with
  | getPckcert q version => exact safe_getPckcertRequest hP hq version
  | registerPlatform p update => exact safe_registerPlatformRequest hP hq update
  | refresh typ fmspc => exact safe_refreshRequest hP typ fmspc
  | scheduledRefresh => exact safe_scheduledRefresh hP
  | putPlatformCollateral body version => exact safe_putPlatformCollateralRequest hP body version
  | _ => cases hq

/-- A task knows the listing its pool is from. -/
theorem safe_forked (hP : Duties P) {past : Past} {o : Op} {r : o.Res}
    (ho : SpawnOk P.name past o) : ∀ q ∈ forks o,
      Safe (P.keeps q.role) (fun _ r => Replied P q r) (q.body env chrono cfg) (⟨o, r⟩ :: past) := by
  cases o with
  | spawnRefresh pool =>
    intro q hq
    cases List.mem_singleton.mp hq
    obtain ⟨hlisted, hname⟩ := ho
    exact safe_refreshPlatformPool hP (hlisted.mono (List.sublist_cons_self _ past)) hname
  | _ => exact fun _ h => by cases h

/-- In every run of such requests the invariant holds, and every request that is
under way is safe. -/
theorem sound_of_duties (hP : Duties P) {accepts : Request → Prop}
    (haccepts : ∀ q, accepts q → q.OnPlatforms P.name)
    {start : Process.Config (P.system chrono accepts) → Prop}
    (hstart : ∀ c, start c → P.inv c.state ∧ c.threads = [])
    {c : Process.Config (P.system chrono accepts)} (h : Reachable start Process.Step c) :
    P.inv c.state ∧ ∀ t ∈ c.threads,
      Safe (P.keeps t.request.role) (fun _ r => Replied P t.request r) t.todo t.past :=
  sound_of_reachable (S := P.system chrono accepts) (I := P.inv)
    (G := fun q => (P.keeps q.role).guar) (Q := fun q _ r => Replied P q r)
    (fun _ hq => safe_body hP (haccepts _ hq))
    (fun _ _ _ _ _ _ _ _ hguar => safe_forked hP hguar.1) hstart h

end Runs

end Pccs.Cache
