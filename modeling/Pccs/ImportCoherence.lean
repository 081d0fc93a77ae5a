import Pccs.ImportRows

/-!
# An imported store is coherent

The conversion builds pools and GET records side by side: a raw level enters
the pool in the step that adds its record, and the pools are added last. No key
is written twice, so nothing that was built is lost on the way.
-/
namespace Pccs.IntelImport

open Text Fallible KeyValue Store Coherence

variable {env : Env}

/-- Pools without levels: what the first two tables give. -/
def Bare (pools : List PlatformPool) : Prop := PoolsOk pools ∧ ∀ p ∈ pools, p.rawTcbs = []

theorem addPlatform_bare {chains : List (String × String)} {pools out : List PlatformPool}
    {row : SqlRow} (h : Bare pools) (hok : addPlatform chains pools row = .ok out) : Bare out := by
  obtain ⟨pool, hpool, rfl⟩ := addPlatform_eq_ok hok
  refine ⟨h.1.snoc hpool, fun p hp => ?_⟩
  rcases List.mem_append.mp hp with hp | hp
  · exact h.2 p hp
  · exact List.mem_singleton.mp hp ▸ hpool.rawTcbs

theorem addPckCert_bare {state out : List PlatformPool × List ((String × String) × String)}
    {row : SqlRow} (h : Bare state.1) (hok : addPckCert state row = .ok out) : Bare out.1 := by
  obtain ⟨pool, cert, _, _, _, hchanged, _⟩ := addPckCert_eq_ok h.1 hok
  refine ⟨hchanged.ok, fun p hp => ?_⟩
  obtain rfl | hp := hchanged.old p hp
  · exact h.2 pool hchanged.mem
  · exact h.2 p hp

/-- The store while its levels are added: every level listed so far has its
record, every record its level, and no pool is stored yet. -/
structure Half (env : Env) (pools : List PlatformPool) (db : Database) : Prop where
  named : PoolsOk pools
  served : ∀ p ∈ pools, Served env db p
  records : ∀ (key : List UInt8) (rec : PckCertRecord), db[key]? = some (.pckcert rec) →
    key = Keys.pckcert env rec.qeid rec.pceid rec.cpusvn rec.pcesvn ∧
    ∃ p ∈ pools, p.qeId = rec.qeid ∧ p.pceId = rec.pceid ∧
      ∃ r ∈ p.rawTcbs, r.cpuSvn = rec.cpusvn ∧ r.pceSvn = rec.pcesvn
  noPool : ∀ (key : List UInt8) (pool : PlatformPool), db[key]? ≠ some (.platform pool)

/-- A row under a new key leaves what is served as it was. -/
theorem served_of_absent {db : Database} {key : List UInt8} {row : Row} {pool : PlatformPool}
    (habsent : db[key]? = none) (h : Served env db pool) :
    Served env (write db [.put key row]) pool where
  pceid := h.pceid
  level := h.level
  distinct := h.distinct
  record r hr := by
    obtain ⟨rec, hrec, hm⟩ := h.record r hr
    refine ⟨rec, ?_, hm⟩
    rw [get_write_of_ne]
    · exact hrec
    · intro w hw he
      obtain rfl := List.mem_singleton.mp hw
      change key = _ at he
      rw [he, hrec] at habsent
      cases habsent

/-- A new level of a served pool, with its record. -/
theorem served_append {db : Database} {pool : PlatformPool} {raw : RawTcb} {rec : PckCertRecord}
    (h : Served env db pool) (hraw : LevelOk raw) (hnew : ∀ r ∈ pool.rawTcbs, ¬ SameLevel r raw)
    (hrec : db[levelKey env pool raw]? = some (.pckcert rec)) (hm : Matches pool raw rec) :
    Served env db { pool with rawTcbs := pool.rawTcbs ++ [raw] } where
  pceid := h.pceid
  level r hr := by
    rcases List.mem_append.mp hr with hr | hr
    · exact h.level r hr
    · exact List.mem_singleton.mp hr ▸ hraw
  distinct := by
    refine List.pairwise_append.mpr ⟨h.distinct, by simp, ?_⟩
    intro r hr s hs
    exact List.mem_singleton.mp hs ▸ hnew r hr
  record r hr := by
    rcases List.mem_append.mp hr with hr | hr
    · obtain ⟨rec', hrec', hm'⟩ := h.record r hr
      exact ⟨rec', hrec', hm'.withRaws _⟩
    · obtain rfl := List.mem_singleton.mp hr
      exact ⟨rec, hrec, hm.withRaws _⟩

theorem addPlatformTcb_half {state out : List PlatformPool × Database} {row : SqlRow}
    (h : Half env state.1 state.2) (hok : addPlatformTcb env state row = .ok out) :
    Half env out.1 out.2 := by
  obtain ⟨pool, raw, cert, hlevel, hadd, hchanged, _⟩ := addPlatformTcb_eq_ok h.named hok
  obtain ⟨habsent, hout⟩ := add_eq_ok hadd
  have hserved := h.served pool hchanged.mem
  have hraw : LevelOk raw := hlevel.ok
  -- listed levels are canonical, so the check for equal texts finds every repetition
  have hnew : ∀ r ∈ pool.rawTcbs, ¬ SameLevel r raw := by
    intro r hr hsame
    have hl := hserved.level r hr
    exact hlevel.fresh r hr ⟨hl.cpuUpper.eq_of_lower hraw.cpuUpper hsame.1,
      hl.pceUpper.eq_of_lower hraw.pceUpper hsame.2⟩
  have hwrite : out.2 = write state.2
      [putPckcert env (levelRecord pool raw.cpuSvn raw.pceSvn cert)] := hout
  rw [hwrite]
  refine ⟨hchanged.ok, ?_, ?_, ?_⟩
  · intro p hp
    obtain rfl | hp := hchanged.old p hp
    · refine served_append (served_of_absent habsent hserved) hraw hnew
        (get_write_last state.2 [] [] (putPckcert env (levelRecord pool raw.cpuSvn raw.pceSvn cert))
          (by simp)) ?_
      refine ⟨rfl, rfl, rfl, rfl, congrArg toAsciiLowercase hlevel.tcbm, ?_, rfl, rfl, rfl, rfl, rfl⟩
      exact ⟨cert, hlevel.cert, rfl, rfl⟩
    · exact served_of_absent habsent (h.served p hp)
  · intro k rec hrec
    obtain ⟨hsame, _⟩ | ⟨w, hw, hk, he⟩ := get_write_cases state.2
      [putPckcert env (levelRecord pool raw.cpuSvn raw.pceSvn cert)] k
    · obtain ⟨hkey, p, hp, hq, hpc, r, hr, hlr⟩ := h.records k rec (hsame.symm.trans hrec)
      refine ⟨hkey, ?_⟩
      obtain rfl | hp := hchanged.new p hp
      · exact ⟨_, hchanged.mem', hq, hpc, r, List.mem_append_left _ hr, hlr⟩
      · exact ⟨p, hp, hq, hpc, r, hr, hlr⟩
    · obtain rfl := List.mem_singleton.mp hw
      cases he.symm.trans hrec
      exact ⟨hk.symm, _, hchanged.mem', rfl, rfl, raw,
        List.mem_append_right _ (List.mem_singleton.mpr rfl), rfl, rfl⟩
  · intro k p hp
    obtain ⟨hsame, _⟩ | ⟨w, hw, _, he⟩ := get_write_cases state.2
      [putPckcert env (levelRecord pool raw.cpuSvn raw.pceSvn cert)] k
    · exact h.noPool k p (hsame.symm.trans hp)
    · obtain rfl := List.mem_singleton.mp hw
      cases he.symm.trans hp

/-- Rows added one after the other, all or nothing. -/
theorem foldlM_add {α : Type} {key : α → List UInt8} {row : α → Row} {l : List α}
    {db out : Database} (h : l.foldlM (fun db a => add db (key a) (row a)) db = .ok out) :
    out = write db (l.map fun a => .put (key a) (row a)) := by
  induction l generalizing db with
  | nil => exact (pure_eq_ok.mp h).symm
  | cons a l ih =>
    rw [List.foldlM_cons] at h
    obtain ⟨db', hadd, h⟩ := bind_eq_ok.mp h
    obtain ⟨_, rfl⟩ := add_eq_ok hadd
    exact ih h

/-- Platforms with distinct canonical names do not overwrite each other. -/
theorem pool_row (hinj : Function.Injective env.hash128Hex) {pools : List PlatformPool}
    {db : Database} (h : PoolsOk pools) {p : PlatformPool} (hp : p ∈ pools) :
    (write db (pools.map (putPlatformPool env)))[Keys.platform env p.qeId p.pceId]? =
      some (.platform p) := by
  obtain ⟨_, hne⟩ | ⟨w, hw, hk, he⟩ := get_write_cases db (pools.map (putPlatformPool env))
    (Keys.platform env p.qeId p.pceId)
  · exact absurd rfl (hne _ (List.mem_map_of_mem hp))
  · obtain ⟨q, hq, rfl⟩ := List.mem_map.mp hw
    obtain ⟨hqe, hpce⟩ := Keys.platform_inj hinj (h.pceid q hq) (h.pceid p hp) hk
    obtain ⟨hq₁, hq₂⟩ := h.upper q hq
    obtain ⟨hp₁, hp₂⟩ := h.upper p hp
    have hname : q = p := List.inj_on_of_nodup_map h.nodup hq hp
      (Prod.ext (hq₁.eq_of_lower hp₁ hqe) (hq₂.eq_of_lower hp₂ hpce))
    rw [he, hname]
    rfl

/-- Adding the pools completes the store. -/
theorem addPools_coherent (hinj : Function.Injective env.hash128Hex) {pools : List PlatformPool}
    {db : Database} (h : Half env pools db) :
    Coherent env (write db (pools.map (putPlatformPool env))) where
  pools k pool hpool := by
    obtain ⟨hsame, _⟩ | ⟨w, hw, hk, he⟩ := get_write_cases db (pools.map (putPlatformPool env)) k
    · exact absurd (hsame.symm.trans hpool) (h.noPool k pool)
    · obtain ⟨p, hp, rfl⟩ := List.mem_map.mp hw
      cases he.symm.trans hpool
      have hs := h.served pool hp
      refine ⟨hk.symm, hs.pceid, hs.level, hs.distinct, fun r hr => ?_⟩
      obtain ⟨rec, hrec, hm⟩ := hs.record r hr
      refine ⟨rec, ?_, hm⟩
      rw [levelKey, get_write_of_ne]
      · exact hrec
      · intro w hw
        obtain ⟨q, _, rfl⟩ := List.mem_map.mp hw
        exact (Keys.pckcert_ne_platform _ _ _ _ _ _).symm
  records k rec hrec := by
    obtain ⟨hsame, _⟩ | ⟨w, hw, _, he⟩ := get_write_cases db (pools.map (putPlatformPool env)) k
    · obtain ⟨hkey, p, hp, hq, hpce, r, hr, hc, hs⟩ := h.records k rec (hsame.symm.trans hrec)
      refine ⟨hkey, p, ?_, by rw [hq]; rfl, by rw [hpce]; rfl, r, hr, by rw [hc]; rfl, by rw [hs]; rfl⟩
      rw [← hq, ← hpce]
      exact pool_row hinj h.named hp
    · obtain ⟨p, _, rfl⟩ := List.mem_map.mp hw
      cases he.symm.trans hrec

/-- No row of either view. -/
def Blank (db : Database) : Prop :=
  ∀ (key : List UInt8) (row : Row), db[key]? = some row → rowPckcert row = none ∧ rowPlatform row = none

theorem convertTcb_blank {certificates : Certificates} {db out : Database} {row : SqlRow}
    (h : Blank db) (hok : convertTcb env certificates db row = .ok out) : Blank out := by
  obtain ⟨rec, _, hok⟩ := convertTcb_eq_ok hok
  obtain ⟨_, rfl⟩ := add_eq_ok hok
  intro k row hrow
  rw [get_insert] at hrow
  split at hrow
  · cases hrow
    exact ⟨rfl, rfl⟩
  · exact h k row hrow

theorem half_of_bare {pools : List PlatformPool} {db : Database} (hp : Bare pools)
    (hd : Blank db) : Half env pools db where
  named := hp.1
  served p hmem := ⟨hp.1.pceid p hmem, by simp [hp.2 p hmem], by simp [hp.2 p hmem],
    by simp [hp.2 p hmem]⟩
  records k rec hrec := by cases (hd k _ hrec).1
  noPool k pool hpool := by cases (hd k _ hpool).2

theorem convertPlatforms_coherent (hinj : Function.Injective env.hash128Hex) {tables : Tables}
    {certificates : Certificates} {db out : Database} (hd : Blank db)
    (hok : convertPlatforms env tables certificates db = .ok out) : Coherent env out := by
  obtain ⟨chains, pools, state, final, _, hpools, hcerts, htcbs, hok⟩ :=
    convertPlatforms_eq_ok.mp hok
  have hempty : Bare [] := ⟨⟨List.nodup_nil, by simp, by simp⟩, by simp⟩
  have hbare : Bare pools := foldlM_inv hempty (fun _ _ _ => addPlatform_bare) hpools
  have hbare : Bare state.1 :=
    foldlM_inv (P := fun s => Bare s.1) hbare (fun _ _ _ => addPckCert_bare) hcerts
  have hhalf : Half env final.1 final.2 :=
    foldlM_inv (P := fun s => Half env s.1 s.2) (half_of_bare hbare hd)
      (fun _ _ _ => addPlatformTcb_half) htcbs
  rw [foldlM_add hok]
  exact addPools_coherent hinj hhalf

section OtherTables

variable {db out : Database}

/-- A table of another kind adds rows that neither view reads. -/
theorem add_coherent {key : List UInt8} {row : Row} (h : Coherent env db)
    (hw : Inert env (.put key row)) (hok : add db key row = .ok out) : Coherent env out := by
  obtain ⟨_, hout⟩ := add_eq_ok hok
  have hwrite : out = write db [.put key row] := hout
  rw [hwrite]
  refine h.inert fun w hmem => ?_
  obtain rfl := List.mem_singleton.mp hmem
  exact hw

theorem convertIdentity_coherent {certificates : Certificates} {row : SqlRow} (h : Coherent env db)
    (hok : convertIdentity env certificates db row = .ok out) : Coherent env out := by
  obtain ⟨rec, _, hok⟩ := convertIdentity_eq_ok hok
  exact add_coherent h (inert_put (by decide) (by decide) (by simp) (by simp)) hok

theorem convertRootCrl_coherent {row : SqlRow} (h : Coherent env db)
    (hok : convertRootCrl env db row = .ok out) : Coherent env out := by
  obtain ⟨crl, _, ⟨_, rfl⟩ | ⟨_, _, hok⟩⟩ := convertRootCrl_eq_ok hok
  · exact h
  · exact add_coherent h (inert_putRootcacrl env crl) hok

theorem convertPckCrl_coherent {certificates : Certificates} {row : SqlRow} (h : Coherent env db)
    (hok : convertPckCrl env certificates db row = .ok out) : Coherent env out := by
  obtain ⟨rec, _, hok⟩ := convertPckCrl_eq_ok hok
  exact add_coherent h (inert_put (by decide) (by decide) (by simp) (by simp)) hok

theorem convertCrl_coherent {row : SqlRow} (h : Coherent env db)
    (hok : convertCrl env db row = .ok out) : Coherent env out := by
  obtain ⟨rec, _, hok⟩ := convertCrl_eq_ok hok
  exact add_coherent h (inert_put (by decide) (by decide) (by simp) (by simp)) hok

theorem convertRegistered_coherent {row : SqlRow} (h : Coherent env db)
    (hok : convertRegistered env db row = .ok out) : Coherent env out := by
  obtain ⟨p, _, hok⟩ := convertRegistered_eq_ok hok
  exact add_coherent h (inert_put (by decide) (by decide) (by simp) (by simp)) hok

theorem convertCollateral_coherent {tables : Tables} {certificates : Certificates}
    (h : Coherent env db) (hok : convertCollateral env tables certificates db = .ok out) :
    Coherent env out := by
  obtain ⟨db₁, h₁, hok⟩ := bind_eq_ok.mp hok
  obtain ⟨db₂, h₂, hok⟩ := bind_eq_ok.mp hok
  obtain ⟨db₃, h₃, h₄⟩ := bind_eq_ok.mp hok
  have h := foldlM_inv h (fun _ _ _ => convertIdentity_coherent) h₁
  have h := foldlM_inv h (fun _ _ _ => convertRootCrl_coherent) h₂
  have h := foldlM_inv h (fun _ _ _ => convertPckCrl_coherent) h₃
  exact foldlM_inv h (fun _ _ _ => convertCrl_coherent) h₄

theorem convertQueueAndPolicies_coherent {tables : Tables} (h : Coherent env db)
    (hok : convertQueueAndPolicies env tables db = .ok out) : Coherent env out := by
  obtain ⟨db₁, h₁, hok⟩ := bind_eq_ok.mp hok
  obtain ⟨policies, _, h₂⟩ := bind_eq_ok.mp hok
  have h := foldlM_inv h (fun _ _ _ => convertRegistered_coherent) h₁
  exact foldlM_inv h (fun _ _ _ hdb hadd => add_coherent hdb
    (inert_put (by decide) (by decide) (by simp) (by simp)) hadd) h₂

end OtherTables

/-- Whatever the snapshot, the store it becomes is coherent. -/
theorem convert_coherent (hinj : Function.Injective env.hash128Hex) {tables : Tables}
    {out : Database} (hok : convert env tables = .ok out) : Coherent env out := by
  obtain ⟨certificates, _, hok⟩ := bind_eq_ok.mp hok
  obtain ⟨db₁, h₁, hok⟩ := bind_eq_ok.mp hok
  obtain ⟨db₂, h₂, hok⟩ := bind_eq_ok.mp hok
  obtain ⟨db₃, h₃, h₄⟩ := bind_eq_ok.mp hok
  have hempty : Blank ∅ := by simp [Blank]
  have hblank := foldlM_inv hempty (fun _ _ _ => convertTcb_blank) h₁
  have h := convertPlatforms_coherent hinj hblank h₂
  have h := convertCollateral_coherent h h₃
  exact convertQueueAndPolicies_coherent h h₄

end Pccs.IntelImport
