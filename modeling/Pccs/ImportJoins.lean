import Pccs.ImportRows
import Pccs.CertWriter
import Pccs.Queue
import Pccs.Appraisal

/-!
# An import loses nothing

The destination has one row for each row of the snapshot, and its reads answer
what the joins of the snapshot answer: a raw level with the certificate of its
TCBm, the data of its platform and the chain of its CA.
-/
namespace Pccs.IntelImport

open Text Encoding Json Fallible KeyValue Store

section Joins

/-- The row with a key, if there is exactly one. -/
def only {α κ : Type} [DecidableEq κ] (key : α → κ) (k : κ) (rows : List α) : Option α :=
  match rows.filter (key · = k) with
  | [row] => some row
  | _ => none

def SqlRow.id (row : SqlRow) : Option Int := row.number "id"

def certificateOf (rows : List SqlRow) (id : Int) : Option String :=
  (only SqlRow.id (some id) rows).bind fun row => row.word "cert"

variable (tables : Tables)

/-- The intermediate certificate of a CA, then the root. -/
def issuerChainOf (ca : String) : Option String := do
  let intermediate ← certificateOf (tables "pcs_certificates") (if ca = "PROCESSOR" then 2 else 4)
  let root ← certificateOf (tables "pcs_certificates") 1
  return intermediate ++ root

/-- A row of `platform_tcbs` with its certificate, its platform and the chain of
their CA. -/
def joined (row : SqlRow) : Option PckCertRecord := do
  let qeid ← row.canonical "qe_id"
  let pceid ← row.canonical "pce_id"
  let cpusvn ← row.canonical "cpu_svn"
  let pcesvn ← row.canonical "pce_svn"
  let tcbm ← row.canonical "tcbm"
  let certRow ← only SqlRow.certName row.certName (tables "pck_cert")
  let cert ← certRow.word "pck_cert"
  let platformRow ← only SqlRow.platformName row.platformName (tables "platforms")
  let fmspc ← platformRow.nullableWord "fmspc"
  let ca ← platformRow.nullableWord "ca"
  let ppid ← platformRow.payload "enc_ppid"
  let manifest ← platformRow.payload "platform_manifest"
  let issuerChain ← issuerChainOf tables (toAsciiUppercase ca)
  return { qeid, pceid, cpusvn, pcesvn, cert, tcbm, issuerChain
           fmspc := toAsciiUppercase fmspc
           ca := toAsciiUppercase ca
           encryptedPpid := if ppid = [] then none else some (hexEncodeUpper ppid)
           platformManifest := hexEncodeUpper manifest }

def hasRootCrl (row : SqlRow) : Bool :=
  row.id = some 1 && (row.payload "crl").any (· ≠ [])

/-- The rows an import makes. -/
def rowCount : Nat :=
  (tables "fmspc_tcbs").length + (tables "platforms").length + (tables "platform_tcbs").length +
    (tables "enclave_identities").length + (tables "pck_crl").length +
    (tables "crl_cache").length + (tables "platforms_registered").length +
    ((tables "appraisal_policies").filterMap (·.canonical "fmspc")).eraseDups.length +
    if (tables "pcs_certificates").any hasRootCrl then 1 else 0

/-- Every row of the snapshot is counted and read back. -/
structure Lossless (env : Env) (db : Database) : Prop where
  count : db.size = rowCount tables
  levels : ∀ row ∈ tables "platform_tcbs", ∃ rec, joined tables row = some rec ∧
    ∀ qeid pceid cpusvn pcesvn, row.word "qe_id" = some qeid → row.word "pce_id" = some pceid →
      row.word "cpu_svn" = some cpusvn → row.word "pce_svn" = some pcesvn →
      getPckcert env db qeid cpusvn pcesvn pceid = some rec
  certs : ∀ row ∈ tables "pck_cert", ∃ pool c, CertOf row pool c ∧
    pool.certs.filter (·.tcbm = c.tcbm) = [c] ∧
    ∀ qeid pceid, row.word "qe_id" = some qeid → row.word "pce_id" = some pceid →
      getPlatformPool env db qeid pceid = some pool
  tcbs : ∀ row ∈ tables "fmspc_tcbs", ∃ rec, TcbOf env row rec ∧
    ∀ fmspc (update : UpdateType), row.word "fmspc" = some fmspc →
      row.word "update_type" = some update.asStr →
      getTcb env db rec.prodType fmspc rec.version update = some rec
  identities : ∀ row ∈ tables "enclave_identities", ∃ rec, IdentityOf env row rec ∧
    ∀ update : UpdateType, row.word "update_type" = some update.asStr →
      getIdentity env db rec.enclaveId rec.version update = some rec
  rootCrl : ∀ row ∈ tables "pcs_certificates", ∀ crl, row.payload "crl" = some crl → crl ≠ [] →
    getRootcacrl db = some crl
  pckCrls : ∀ row ∈ tables "pck_crl", ∃ rec, PckCrlOf row rec ∧
    ∀ ca, row.word "ca" = some ca → getPckcrl env db ca = some rec
  crls : ∀ row ∈ tables "crl_cache", ∃ rec, CrlOf row rec ∧ getCrl env db rec.uri = some rec.crl
  registered : ∀ row ∈ tables "platforms_registered", ∃ p, RegisteredOf row p ∧
    p ∈ (takeRegistered db p.state).1
  policies : ∀ row ∈ tables "appraisal_policies", ∃ p list, PolicyOf row p ∧
    list.filter (·.id = p.id) = [p] ∧
    ∀ fmspc, row.word "fmspc" = some fmspc → Appraisal.storedList env db fmspc = some list

end Joins

section Distinct

variable {α κ : Type} [DecidableEq κ] {key : α → κ}

theorem filter_of_nodup {rows : List α} (h : (rows.map key).Nodup) {row : α} (hrow : row ∈ rows) :
    rows.filter (key · = key row) = [row] := by
  induction rows with
  | nil => cases hrow
  | cons a rows ih =>
    rw [List.map_cons, List.nodup_cons] at h
    rcases List.mem_cons.mp hrow with rfl | hrow
    · have hrest : rows.filter (key · = key row) = [] := by
        rw [List.filter_eq_nil_iff]
        intro b hb he
        exact h.1 (List.mem_map.mpr ⟨b, hb, of_decide_eq_true he⟩)
      rw [List.filter_cons_of_pos (by simp), hrest]
    · have hne : key a ≠ key row := fun he => h.1 (he ▸ List.mem_map_of_mem hrow)
      rw [List.filter_cons_of_neg (by simpa using hne), ih h.2 hrow]

theorem only_of_nodup {rows : List α} (h : (rows.map key).Nodup) {row : α} (hrow : row ∈ rows) :
    only key (key row) rows = some row := by
  rw [only, filter_of_nodup h hrow]

omit [DecidableEq κ] in
theorem nodup_snoc {rows : List α} (h : (rows.map key).Nodup) {a : α}
    (hnew : ∀ b ∈ rows, key b ≠ key a) : ((rows ++ [a]).map key).Nodup := by
  rw [List.map_append, List.nodup_append]
  refine ⟨h, by simp, ?_⟩
  intro k hk l hl
  obtain ⟨b, hb, rfl⟩ := List.mem_map.mp hk
  obtain rfl := List.mem_singleton.mp hl
  exact hnew b hb

theorem lookup_snoc {ν : Type} {l : List (κ × ν)} {k a : κ} {v w : ν}
    (h : (l ++ [(a, w)]).lookup k = some v) : l.lookup k = some v ∨ k = a ∧ w = v := by
  rw [List.lookup_append] at h
  cases hold : l.lookup k with
  | some u =>
    rw [hold] at h
    exact .inl h
  | none =>
    rw [hold, Option.none_or] at h
    by_cases he : k = a
    · subst he
      rw [List.lookup_cons_self] at h
      exact .inr ⟨rfl, Option.some.inj h⟩
    · have hne : (k == a) = false := by simpa using he
      rw [List.lookup_cons, hne] at h
      cases h

end Distinct

section Certificates

variable {tables : Tables}

/-- The certificates read so far, each under an id of its own. -/
structure CertificatesOk (done : List SqlRow) (certificates : Certificates) : Prop where
  ids : (done.map SqlRow.id).Nodup
  listed : ∀ row ∈ done, ∃ id, row.id = some id ∧ (certificates.lookup id).isSome
  text : ∀ id cert, certificates.lookup id = some cert → certificateOf done id = some cert

theorem addCertificate_ok {done : List SqlRow} {certificates out : Certificates} {row : SqlRow}
    (h : CertificatesOk done certificates) (hok : addCertificate certificates row = .ok out) :
    CertificatesOk (done ++ [row]) out := by
  obtain ⟨id, hid, hok⟩ := bind_eq_ok.mp hok
  obtain ⟨_, _, hok⟩ := bind_eq_ok.mp hok
  obtain ⟨cert, hcert, hok⟩ := bind_eq_ok.mp hok
  obtain ⟨_, _, hok⟩ := bind_eq_ok.mp hok
  obtain ⟨_, hfresh, hok⟩ := bind_eq_ok.mp hok
  cases pure_eq_ok.mp hok
  have hfresh : certificates.lookup id = none :=
    Option.not_isSome_iff_eq_none.mp (reject_eq_ok.mp hfresh)
  have hrow : row.id = some id := int_eq_ok.mp hid
  have hnew : ∀ b ∈ done, b.id ≠ row.id := by
    intro b hb he
    obtain ⟨id', hid', hsome⟩ := h.listed b hb
    rw [hid', hrow] at he
    cases he
    rw [hfresh] at hsome
    cases hsome
  have hids := nodup_snoc h.ids hnew
  refine ⟨hids, fun b hb => ?_, fun i c hlookup => ?_⟩
  · rcases List.mem_append.mp hb with hb | hb
    · obtain ⟨i, hi, hsome⟩ := h.listed b hb
      refine ⟨i, hi, ?_⟩
      rw [List.lookup_append]
      simp [hsome]
    · obtain rfl := List.mem_singleton.mp hb
      refine ⟨id, hrow, ?_⟩
      rw [List.lookup_append, hfresh]
      simp
  · by_cases hi : i = id
    · subst hi
      obtain hold | ⟨_, rfl⟩ := lookup_snoc hlookup
      · rw [hfresh] at hold
        cases hold
      · rw [certificateOf, ← hrow, only_of_nodup hids (by simp), Option.bind_some]
        exact text_eq_ok.mp hcert
    · obtain hold | ⟨he, _⟩ := lookup_snoc hlookup
      · have hne : ¬ (row.id = some i) := by
          rw [hrow]
          simpa using fun he => hi he.symm
        rw [certificateOf, only, List.filter_append, List.filter_cons_of_neg (by simpa using hne),
          List.filter_nil, List.append_nil]
        exact h.text i c hold
      · exact absurd he hi

theorem chain_issuer {certificates : Certificates} {row : SqlRow} {ca c : String}
    (h : CertificatesOk (tables "pcs_certificates") certificates) (hca : row.ca = .ok ca)
    (hok : chain certificates row "intmd_cert_id" = .ok c) : issuerChainOf tables ca = some c := by
  obtain ⟨root, _, hok⟩ := bind_eq_ok.mp hok
  obtain ⟨_, hone, hok⟩ := bind_eq_ok.mp hok
  obtain ⟨expected, hexpected, hok⟩ := bind_eq_ok.mp hok
  obtain ⟨id, _, hok⟩ := bind_eq_ok.mp hok
  obtain ⟨_, hid, hok⟩ := bind_eq_ok.mp hok
  obtain ⟨rootCert, hroot, hok⟩ := bind_eq_ok.mp hok
  obtain ⟨signing, hsigning, hok⟩ := bind_eq_ok.mp hok
  cases pure_eq_ok.mp hok
  have hone : root = 1 := by simpa using reject_eq_ok.mp hone
  have hid : id = expected := by simpa using reject_eq_ok.mp hid
  have hexp : expected = if ca = "PROCESSOR" then 2 else 4 := by
    rw [expectedIssuer, if_neg (by decide), hca] at hexpected
    exact (Except.ok.inj hexpected).symm
  have hr := h.text _ _ (require_eq_ok.mp hroot)
  have hs := h.text _ _ (require_eq_ok.mp hsigning)
  rw [hone] at hr
  rw [hid, hexp] at hs
  rw [issuerChainOf, hr, hs]
  rfl

/-- The chains that are listed are the ones of their CA. -/
theorem addChain_ok {certificates : Certificates} {chains out : List (String × String)}
    {row : SqlRow} (h : CertificatesOk (tables "pcs_certificates") certificates)
    (hchains : ∀ ca c, chains.lookup ca = some c → issuerChainOf tables ca = some c)
    (hok : addChain certificates chains row = .ok out) :
    ∀ ca c, out.lookup ca = some c → issuerChainOf tables ca = some c := by
  obtain ⟨ca, hca, hok⟩ := bind_eq_ok.mp hok
  obtain ⟨c, hc, hok⟩ := bind_eq_ok.mp hok
  obtain ⟨_, _, hok⟩ := bind_eq_ok.mp hok
  cases pure_eq_ok.mp hok
  intro ca' c' hlookup
  obtain hold | ⟨rfl, rfl⟩ := lookup_snoc hlookup
  · exact hchains _ _ hold
  · exact chain_issuer h hca hc

end Certificates

section Platforms

variable {tables : Tables}

/-- A pool holds the row of its platform and the chain of its CA, if it has one. -/
structure PoolOf (tables : Tables) (row : SqlRow) (pool : PlatformPool) : Prop where
  name : row.platformName = (some pool.qeId, some pool.pceId)
  fmspc : ∃ text, row.nullableWord "fmspc" = some text ∧ pool.fmspc = toAsciiUppercase text
  ca : ∃ text, row.nullableWord "ca" = some text ∧ pool.ca = toAsciiUppercase text
  credentials : CredentialsOf row pool.encPpid pool.platformManifest
  issuerChain : pool.issuerChain ≠ "" → issuerChainOf tables pool.ca = some pool.issuerChain

/-- The pools of the platforms read so far. -/
structure PlatformsOk (tables : Tables) (done : List SqlRow) (pools : List PlatformPool) :
    Prop where
  ok : PoolsOk pools
  names : (done.map SqlRow.platformName).Nodup
  length : pools.length = done.length
  pool : ∀ row ∈ done, ∃ p ∈ pools, row.platformName = (some p.qeId, some p.pceId)
  row : ∀ p ∈ pools, ∃ row ∈ done, PoolOf tables row p

/-- Pools that changed in their certificates and levels only. -/
theorem PlatformsOk.changed {done : List SqlRow} {pools out : List PlatformPool}
    {pool pool' : PlatformPool} (h : PlatformsOk tables done pools)
    (hchanged : Changed pools out pool pool') (hlength : out.length = pools.length)
    (hqe : pool'.qeId = pool.qeId) (hpce : pool'.pceId = pool.pceId)
    (hsame : ∀ row, PoolOf tables row pool → PoolOf tables row pool') :
    PlatformsOk tables done out where
  ok := hchanged.ok
  names := h.names
  length := hlength.trans h.length
  pool row hrow := by
    obtain ⟨p, hp, hname⟩ := h.pool row hrow
    obtain rfl | hp := hchanged.new p hp
    · exact ⟨pool', hchanged.mem', by rw [hqe, hpce]; exact hname⟩
    · exact ⟨p, hp, hname⟩
  row p hp := by
    obtain rfl | hp := hchanged.old p hp
    · obtain ⟨row, hrow, hof⟩ := h.row pool hchanged.mem
      exact ⟨row, hrow, hsame row hof⟩
    · exact h.row p hp

theorem addPlatform_ok {chains : List (String × String)} {done : List SqlRow}
    {pools out : List PlatformPool} {row : SqlRow}
    (hchains : ∀ ca c, chains.lookup ca = some c → issuerChainOf tables ca = some c)
    (h : PlatformsOk tables done pools ∧ ∀ p ∈ pools, p.certs = [])
    (hok : addPlatform chains pools row = .ok out) :
    PlatformsOk tables (done ++ [row]) out ∧ ∀ p ∈ out, p.certs = [] := by
  obtain ⟨pool, hpool, rfl⟩ := addPlatform_eq_ok hok
  obtain ⟨h, hbare⟩ := h
  have hchain : pool.issuerChain ≠ "" → issuerChainOf tables pool.ca = some pool.issuerChain := by
    intro hne
    rw [hpool.issuerChain] at hne ⊢
    cases hlookup : chains.lookup pool.ca with
    | none => simp [hlookup] at hne
    | some c => exact hchains _ _ hlookup
  have hof : PoolOf tables row pool :=
    ⟨hpool.name.name, hpool.fmspc, hpool.ca, hpool.credentials, hchain⟩
  refine ⟨⟨h.ok.snoc hpool, nodup_snoc h.names ?_, ?_, ?_, ?_⟩, ?_⟩
  · intro b hb he
    obtain ⟨p, hp, hname⟩ := h.pool b hb
    rw [hname, hof.name] at he
    obtain ⟨hqe, hpce⟩ := Prod.mk.inj he
    exact hpool.fresh p hp (Prod.ext (Option.some.inj hqe) (Option.some.inj hpce))
  · rw [List.length_append, List.length_append, h.length]
    rfl
  · intro b hb
    rcases List.mem_append.mp hb with hb | hb
    · obtain ⟨p, hp, hname⟩ := h.pool b hb
      exact ⟨p, List.mem_append_left _ hp, hname⟩
    · obtain rfl := List.mem_singleton.mp hb
      exact ⟨pool, by simp, hof.name⟩
  · intro p hp
    rcases List.mem_append.mp hp with hp | hp
    · obtain ⟨b, hb, hbp⟩ := h.row p hp
      exact ⟨b, List.mem_append_left _ hb, hbp⟩
    · obtain rfl := List.mem_singleton.mp hp
      exact ⟨row, by simp, hof⟩
  · intro p hp
    rcases List.mem_append.mp hp with hp | hp
    · exact hbare p hp
    · exact List.mem_singleton.mp hp ▸ hpool.certs

/-- The certificates read so far: each row is in the pool of its platform, and
each pool has one certificate of a TCBm. -/
structure CertsOk (done : List SqlRow) (pools : List PlatformPool) : Prop where
  names : (done.map SqlRow.certName).Nodup
  here : ∀ row ∈ done, ∃ p ∈ pools, ∃ c ∈ p.certs, CertOf row p c
  row : ∀ p ∈ pools, ∀ c ∈ p.certs, ∃ row ∈ done, CertOf row p c
  once : ∀ p ∈ pools, (p.certs.map PlatformCert.tcbm).Nodup
  chained : ∀ p ∈ pools, p.certs ≠ [] → p.issuerChain ≠ ""

theorem addPckCert_ok {done platforms : List SqlRow} {row : SqlRow}
    {state out : List PlatformPool × List ((String × String) × String)}
    (h : PlatformsOk tables platforms state.1 ∧ CertsOk done state.1)
    (hok : addPckCert state row = .ok out) :
    PlatformsOk tables platforms out.1 ∧ CertsOk (done ++ [row]) out.1 := by
  obtain ⟨h, hcerts⟩ := h
  obtain ⟨pool, c, hof, hchain, hfresh, hchanged, hlength⟩ := addPckCert_eq_ok h.ok hok
  refine ⟨h.changed hchanged hlength rfl rfl fun r hr => ⟨hr.name, hr.fmspc, hr.ca, hr.credentials,
    hr.issuerChain⟩, ⟨nodup_snoc hcerts.names ?_, ?_, ?_, ?_, ?_⟩⟩
  · intro b hb he
    obtain ⟨p, hp, d, hd, hbd⟩ := hcerts.here b hb
    rw [hbd.name, hof.name] at he
    obtain ⟨hname, htcbm⟩ := Prod.mk.inj he
    obtain ⟨hqe, hpce⟩ := Prod.mk.inj hname
    have hsame : p = pool := List.inj_on_of_nodup_map h.ok.nodup hp hchanged.mem
      (Prod.ext (Option.some.inj hqe) (Option.some.inj hpce))
    exact hfresh d (hsame ▸ hd) (Option.some.inj htcbm)
  · intro b hb
    rcases List.mem_append.mp hb with hb | hb
    · obtain ⟨p, hp, d, hd, hbd⟩ := hcerts.here b hb
      obtain rfl | hp := hchanged.new p hp
      · exact ⟨_, hchanged.mem', d, List.mem_append_left _ hd, hbd.name, hbd.cert⟩
      · exact ⟨p, hp, d, hd, hbd⟩
    · obtain rfl := List.mem_singleton.mp hb
      exact ⟨_, hchanged.mem', c, by simp, hof.name, hof.cert⟩
  · intro p hp d hd
    obtain rfl | hp := hchanged.old p hp
    · rcases List.mem_append.mp hd with hd | hd
      · obtain ⟨b, hb, hbd⟩ := hcerts.row pool hchanged.mem d hd
        exact ⟨b, List.mem_append_left _ hb, hbd.name, hbd.cert⟩
      · obtain rfl := List.mem_singleton.mp hd
        exact ⟨row, by simp, hof.name, hof.cert⟩
    · obtain ⟨b, hb, hbd⟩ := hcerts.row p hp d hd
      exact ⟨b, List.mem_append_left _ hb, hbd⟩
  · intro p hp
    obtain rfl | hp := hchanged.old p hp
    · exact nodup_snoc (hcerts.once pool hchanged.mem) hfresh
    · exact hcerts.once p hp
  · intro p hp hne
    obtain rfl | hp := hchanged.old p hp
    · exact hchain
    · exact hcerts.chained p hp hne

end Platforms

section Levels

variable {env : Env} {tables : Tables} {pools : List PlatformPool}

/-- The record a level was given is the one of its join. -/
theorem joined_of_level {row : SqlRow} {pool : PlatformPool} {raw : RawTcb} {c : PlatformCert}
    (hplatforms : PlatformsOk tables (tables "platforms") pools)
    (hcerts : CertsOk (tables "pck_cert") pools) (hpool : pool ∈ pools)
    (h : LevelOf row pool raw c) :
    joined tables row = some (levelRecord pool raw.cpuSvn raw.pceSvn c) := by
  obtain ⟨platformRow, hplatform, hof⟩ := hplatforms.row pool hpool
  obtain ⟨certRow, hcert, hcertOf⟩ := hcerts.row pool hpool c h.cert
  obtain ⟨hqe, hpce⟩ := Prod.mk.inj h.name
  obtain ⟨fmspc, hfmspc, hpoolFmspc⟩ := hof.fmspc
  obtain ⟨ca, hca, hpoolCa⟩ := hof.ca
  obtain ⟨⟨ppid, hppid, hpoolPpid⟩, manifest, hmanifest, hpoolManifest⟩ := hof.credentials
  have hcertName : row.certName = certRow.certName := by
    rw [hcertOf.name, SqlRow.certName, h.name, h.canonTcbm, h.tcbm]
  have hjoinCert : only SqlRow.certName row.certName (tables "pck_cert") = some certRow := by
    rw [hcertName]
    exact only_of_nodup hcerts.names hcert
  have hjoinPlatform : only SqlRow.platformName row.platformName (tables "platforms") =
      some platformRow := by
    rw [h.name, ← hof.name]
    exact only_of_nodup hplatforms.names hplatform
  have hchain : issuerChainOf tables pool.ca = some pool.issuerChain :=
    hof.issuerChain (hcerts.chained pool hpool (List.ne_nil_of_mem h.cert))
  have hstored : (if ppid = [] then none else some (hexEncodeUpper ppid)) = pool.storedPpid := by
    rw [PlatformPool.storedPpid, hpoolPpid]
    simp only [hexEncodeUpper_eq_empty]
  simp only [joined, hqe, hpce, h.cpuSvn, h.pceSvn, h.canonTcbm, hjoinCert, hjoinPlatform,
    hcertOf.cert, hfmspc, hca, hppid, hmanifest, hchain, hstored, ← hpoolFmspc, ← hpoolCa,
    ← hpoolManifest, ← h.tcbm, Option.bind_eq_bind, Option.bind_some]
  rfl

/-- A level becomes the record of its join, under the key of its level. -/
def LevelRow (env : Env) (tables : Tables) (row : SqlRow) (key : List UInt8) (r : Row) : Prop :=
  ∃ rec, joined tables row = some rec ∧
    key = Keys.pckcert env rec.qeid rec.pceid rec.cpusvn rec.pcesvn ∧ r = .pckcert rec

/-- The levels read so far are stored, and the pools differ in their levels only. -/
structure LevelsOk (env : Env) (tables : Tables) (start : Database) (done : List SqlRow)
    (state : List PlatformPool × Database) : Prop where
  platforms : PlatformsOk tables (tables "platforms") state.1
  certs : CertsOk (tables "pck_cert") state.1
  levels : Added (LevelRow env tables) start done state.2

theorem addPlatformTcb_ok {start : Database} {done : List SqlRow} {row : SqlRow}
    {state out : List PlatformPool × Database} (h : LevelsOk env tables start done state)
    (hok : addPlatformTcb env state row = .ok out) :
    LevelsOk env tables start (done ++ [row]) out := by
  obtain ⟨pool, raw, c, hlevel, hadd, hchanged, hlength⟩ :=
    addPlatformTcb_eq_ok h.platforms.ok hok
  obtain ⟨hfree, hout⟩ := add_eq_ok hadd
  have hjoined := joined_of_level h.platforms h.certs hchanged.mem hlevel
  refine ⟨h.platforms.changed hchanged hlength rfl rfl fun r hr => ⟨hr.name, hr.fmspc, hr.ca,
    hr.credentials, hr.issuerChain⟩, ⟨h.certs.names, ?_, ?_, ?_, ?_⟩, ?_⟩
  · intro b hb
    obtain ⟨p, hp, d, hd, hbd⟩ := h.certs.here b hb
    obtain rfl | hp := hchanged.new p hp
    · exact ⟨_, hchanged.mem', d, hd, hbd.name, hbd.cert⟩
    · exact ⟨p, hp, d, hd, hbd⟩
  · intro p hp d hd
    obtain rfl | hp := hchanged.old p hp
    · obtain ⟨b, hb, hbd⟩ := h.certs.row pool hchanged.mem d hd
      exact ⟨b, hb, hbd.name, hbd.cert⟩
    · exact h.certs.row p hp d hd
  · intro p hp
    obtain rfl | hp := hchanged.old p hp
    · exact h.certs.once pool hchanged.mem
    · exact h.certs.once p hp
  · intro p hp hne
    obtain rfl | hp := hchanged.old p hp
    · exact h.certs.chained pool hchanged.mem hne
    · exact h.certs.chained p hp hne
  · rw [hout]
    exact h.levels.snoc hfree ⟨_, hjoined, rfl, rfl⟩

end Levels

section Tables

variable {env : Env} {tables : Tables} {start db out : Database}

/-- Rows that are added one by one all arrive. -/
theorem added_of_steps {α : Type} {R : α → List UInt8 → Row → Prop}
    {f : Database → α → Except String Database}
    (hstep : ∀ db a out, f db a = .ok out → ∃ k v, R a k v ∧ add db k v = .ok out) {rows : List α}
    (h : rows.foldlM f start = .ok out) : Added R start rows out := by
  refine foldlM_prefix (P := Added R start) (.nil start) (fun done db a out hdone hf => ?_) h
  obtain ⟨k, v, hR, hadd⟩ := hstep db a out hf
  obtain ⟨hfree, rfl⟩ := add_eq_ok hadd
  exact hdone.snoc hfree hR

/-- A row that is kept is there at the end. -/
theorem kept {R : List UInt8 → Row → Prop}
    (hkeeps : ∀ (k : List UInt8) (r : Row), db[k]? = some r → out[k]? = some r)
    (h : ∃ k r, R k r ∧ db[k]? = some r) : ∃ k r, R k r ∧ out[k]? = some r := by
  obtain ⟨k, r, hR, hr⟩ := h
  exact ⟨k, r, hR, hkeeps k r hr⟩

def TcbRow (env : Env) (row : SqlRow) (key : List UInt8) (r : Row) : Prop :=
  ∃ rec, TcbOf env row rec ∧ r = .tcb rec ∧
    key = Keys.tcb env (Keys.prodName rec.prodType) rec.version rec.fmspc rec.updateType

def IdentityRow (env : Env) (row : SqlRow) (key : List UInt8) (r : Row) : Prop :=
  ∃ rec, IdentityOf env row rec ∧ r = .identity rec ∧
    key = Keys.identity env (Keys.identityName rec.enclaveId) rec.version rec.updateType

def PckCrlRow (env : Env) (row : SqlRow) (key : List UInt8) (r : Row) : Prop :=
  ∃ rec, PckCrlOf row rec ∧ r = .pckcrl rec ∧ key = Keys.pckcrl env rec.ca

def CrlRow (env : Env) (row : SqlRow) (key : List UInt8) (r : Row) : Prop :=
  ∃ rec, CrlOf row rec ∧ r = .crl rec ∧ key = Keys.crl env rec.uri

def RegisteredRow (env : Env) (row : SqlRow) (key : List UInt8) (r : Row) : Prop :=
  ∃ p, RegisteredOf row p ∧ r = .registered p ∧
    key = Keys.preg env p.qeId p.pceId p.cpuSvn p.pceSvn

def PoolRow (env : Env) (pool : PlatformPool) (key : List UInt8) (r : Row) : Prop :=
  r = .platform pool ∧ key = Keys.platform env pool.qeId pool.pceId

def PolicyRow (env : Env) (policies : List AppraisalPolicy) (fmspc : String) (key : List UInt8)
    (r : Row) : Prop :=
  r = .appraisal (policies.filter (·.fmspc = fmspc)) ∧ key = Keys.appraisal env fmspc

/-- The certificate rows read so far: at most one had a CRL, and it is stored. -/
structure RootCrlOk (start : Database) (done : List SqlRow) (db : Database) : Prop where
  size : db.size = start.size + if done.any hasRootCrl then 1 else 0
  keeps : ∀ (k : List UInt8) (r : Row), start[k]? = some r → db[k]? = some r
  row : ∀ row ∈ done, ∀ crl, row.payload "crl" = some crl → crl ≠ [] →
    db[Keys.rootcacrl]? = some (.rootcacrl crl)

theorem hasRootCrl_iff {row : SqlRow} : hasRootCrl row = true ↔
    row.number "id" = some 1 ∧ ∃ crl, row.payload "crl" = some crl ∧ crl ≠ [] := by
  rw [hasRootCrl, Bool.and_eq_true, decide_eq_true_iff, SqlRow.id, Option.any_eq_true]
  simp only [decide_eq_true_iff]

theorem convertRootCrl_ok {done : List SqlRow} {row : SqlRow} (h : RootCrlOk start done db)
    (hok : convertRootCrl env db row = .ok out) : RootCrlOk start (done ++ [row]) out := by
  obtain ⟨crl, hcrl, ⟨hempty, rfl⟩ | ⟨hne, hid, hadd⟩⟩ := convertRootCrl_eq_ok hok
  · have hno : hasRootCrl row = false := by
      rw [← Bool.not_eq_true, hasRootCrl_iff]
      rintro ⟨_, crl', hcrl', hne⟩
      cases hcrl.symm.trans hcrl'
      exact hne hempty
    refine ⟨?_, h.keeps, fun b hb crl' hcrl' hne => ?_⟩
    · rw [h.size, List.any_append, List.any_cons, hno, List.any_nil, Bool.or_false, Bool.or_false]
    · rcases List.mem_append.mp hb with hb | hb
      · exact h.row b hb crl' hcrl' hne
      · obtain rfl := List.mem_singleton.mp hb
        cases hcrl.symm.trans hcrl'
        exact absurd hempty hne
  · obtain ⟨hfree, rfl⟩ := add_eq_ok hadd
    have hyes : hasRootCrl row = true := hasRootCrl_iff.mpr ⟨hid, crl, hcrl, hne⟩
    have hfirst : done.any hasRootCrl = false := by
      rw [← Bool.not_eq_true, List.any_eq_true]
      rintro ⟨b, hb, hroot⟩
      obtain ⟨_, crl', hcrl', hne'⟩ := hasRootCrl_iff.mp hroot
      rw [h.row b hb crl' hcrl' hne'] at hfree
      cases hfree
    refine ⟨?_, fun k r hr => keeps_insert hfree k r (h.keeps k r hr),
      fun b hb crl' hcrl' hne' => ?_⟩
    · rw [size_insert_free hfree, h.size, List.any_append, hfirst]
      simp [hyes]
    · rcases List.mem_append.mp hb with hb | hb
      · exact keeps_insert hfree _ _ (h.row b hb crl' hcrl' hne')
      · obtain rfl := List.mem_singleton.mp hb
        cases hcrl.symm.trans hcrl'
        rw [get_insert, if_pos rfl]

/-- The policies read so far, one for each row. -/
structure PoliciesOk (done : List SqlRow) (policies : List AppraisalPolicy) : Prop where
  distinct : (policies.map fun p => (p.fmspc, p.id)).Nodup
  fmspcs : policies.map AppraisalPolicy.fmspc = done.filterMap (·.canonical "fmspc")
  row : ∀ row ∈ done, ∃ p ∈ policies, PolicyOf row p

theorem addPolicy_ok {done : List SqlRow} {policies out : List AppraisalPolicy} {row : SqlRow}
    (h : PoliciesOk done policies) (hok : addPolicy env policies row = .ok out) :
    PoliciesOk (done ++ [row]) out := by
  obtain ⟨p, hp, rfl, hfresh⟩ := addPolicy_eq_ok hok
  refine ⟨nodup_snoc h.distinct hfresh, ?_, fun b hb => ?_⟩
  · rw [List.map_append, List.filterMap_append, h.fmspcs]
    simp [hp.fmspc]
  · rcases List.mem_append.mp hb with hb | hb
    · obtain ⟨q, hq, hof⟩ := h.row b hb
      exact ⟨q, List.mem_append_left _ hq, hof⟩
    · obtain rfl := List.mem_singleton.mp hb
      exact ⟨p, by simp, hp⟩

/-- The stored list of an FMSPC has one policy of an id. -/
theorem policy_once {policies : List AppraisalPolicy} {p : AppraisalPolicy}
    (h : (policies.map fun p => (p.fmspc, p.id)).Nodup) (hp : p ∈ policies) :
    (policies.filter (·.fmspc = p.fmspc)).filter (·.id = p.id) = [p] := by
  have hboth : policies.filter (fun q => (q.fmspc, q.id) = (p.fmspc, p.id)) = [p] :=
    filter_of_nodup h hp
  rw [List.filter_filter, ← hboth]
  apply List.filter_congr
  intro q _
  simp [Bool.decide_and, Bool.and_comm]

end Tables

section Reads

variable {env : Env} {db : Database} {row : SqlRow}

/-- A record is read back unless its document nests too deep. -/
theorem getTcb_of_row {rec : TcbRecord} {fmspc : String} {update : UpdateType}
    (h : TcbOf env row rec)
    (hrow : db[Keys.tcb env (Keys.prodName rec.prodType) rec.version rec.fmspc rec.updateType]? =
      some (.tcb rec))
    (hdepth : rec.tcbinfo.depth + 1 < recursionLimit)
    (hfmspc : row.word "fmspc" = some fmspc) (hupdate : row.word "update_type" = some update.asStr) :
    getTcb env db rec.prodType fmspc rec.version update = some rec := by
  have hu : rec.updateType = update.asStr := Option.some.inj (h.update.symm.trans hupdate)
  have hf := lower_of_canonical h.fmspc hfmspc
  have hkey : Keys.tcb env (Keys.prodName rec.prodType) rec.version fmspc update.asStr =
      Keys.tcb env (Keys.prodName rec.prodType) rec.version rec.fmspc rec.updateType := by
    simp only [Keys.tcb, Keys.make, Keys.joinLower, List.map_cons, hf, hu]
  unfold getTcb
  rw [hkey, hrow]
  simp [rowTcb, hdepth, eqIgnoreAsciiCase, hf, hu]

theorem depth_of_getTcb {prodType version : Nat} {fmspc : String} {update : UpdateType}
    {rec : TcbRecord} (h : getTcb env db prodType fmspc version update = some rec) :
    rec.tcbinfo.depth + 1 < recursionLimit := by
  obtain ⟨rec', hrow, h⟩ := Option.bind_eq_some_iff.mp h
  split at h
  · cases h
  · cases h
    obtain ⟨row, _, hrow⟩ := Option.bind_eq_some_iff.mp hrow
    exact (rowTcb_eq_some.mp hrow).2

theorem depth_of_getIdentity {enclaveId version : Nat} {update : UpdateType} {rec : IdentityRecord}
    (h : getIdentity env db enclaveId version update = some rec) :
    rec.identity.depth + 1 < recursionLimit := by
  obtain ⟨rec', hrow, h⟩ := Option.bind_eq_some_iff.mp h
  split at h
  · cases h
  · cases h
    obtain ⟨row, _, hrow⟩ := Option.bind_eq_some_iff.mp hrow
    exact (rowIdentity_eq_some.mp hrow).2

theorem getIdentity_of_row {rec : IdentityRecord} {update : UpdateType}
    (h : IdentityOf env row rec)
    (hrow : db[Keys.identity env (Keys.identityName rec.enclaveId) rec.version rec.updateType]? =
      some (.identity rec))
    (hdepth : rec.identity.depth + 1 < recursionLimit)
    (hupdate : row.word "update_type" = some update.asStr) :
    getIdentity env db rec.enclaveId rec.version update = some rec := by
  have hu : rec.updateType = update.asStr := Option.some.inj (h.update.symm.trans hupdate)
  unfold getIdentity
  rw [← hu, hrow]
  simp [rowIdentity, hdepth, eqIgnoreAsciiCase]

theorem getPckcrl_of_row {rec : PckCrlRecord} {ca : String} (h : PckCrlOf row rec)
    (hrow : db[Keys.pckcrl env rec.ca]? = some (.pckcrl rec)) (hca : row.word "ca" = some ca) :
    getPckcrl env db ca = some rec := by
  have hc := lower_of_canonical h.ca hca
  have hkey : Keys.pckcrl env ca = Keys.pckcrl env rec.ca := by
    simp only [Keys.pckcrl, Keys.make, Keys.joinLower, List.map_cons, hc]
  unfold getPckcrl
  rw [hkey, hrow]
  simp [rowPckcrl, eqIgnoreAsciiCase, hc]

theorem storedList_of_row {p : AppraisalPolicy} {list : List AppraisalPolicy} {fmspc : String}
    (h : PolicyOf row p) (hrow : db[Keys.appraisal env p.fmspc]? = some (.appraisal list))
    (hfmspc : row.word "fmspc" = some fmspc) : Appraisal.storedList env db fmspc = some list := by
  have hf := lower_of_canonical h.fmspc hfmspc
  have hkey : Keys.appraisal env fmspc = Keys.appraisal env p.fmspc := by
    simp only [Keys.appraisal, Keys.make, Keys.joinLower, List.map_cons, hf]
  rw [Appraisal.storedList, hkey, hrow]
  rfl

theorem getPlatformPool_of_row {pool : PlatformPool} {qeid pceid : String}
    (hname : row.platformName = (some pool.qeId, some pool.pceId))
    (hrow : db[Keys.platform env pool.qeId pool.pceId]? = some (.platform pool))
    (hqe : row.word "qe_id" = some qeid) (hpce : row.word "pce_id" = some pceid) :
    getPlatformPool env db qeid pceid = some pool := by
  obtain ⟨hqeName, hpceName⟩ := Prod.mk.inj hname
  have h₁ := lower_of_canonical hqeName hqe
  have h₂ := lower_of_canonical hpceName hpce
  refine getPlatformPool_eq_some.mpr ⟨?_, h₁, h₂⟩
  rw [← Keys.platform_congr h₁ h₂]
  exact hrow

/-- A join is under the identifiers of its row. -/
theorem joined_names {tables : Tables} {rec : PckCertRecord} (h : joined tables row = some rec) :
    row.platformName = (some rec.qeid, some rec.pceid) ∧
      row.canonical "cpu_svn" = some rec.cpusvn ∧ row.canonical "pce_svn" = some rec.pcesvn := by
  obtain ⟨qeid, hqe, h⟩ := Option.bind_eq_some_iff.mp h
  obtain ⟨pceid, hpce, h⟩ := Option.bind_eq_some_iff.mp h
  obtain ⟨cpusvn, hcpu, h⟩ := Option.bind_eq_some_iff.mp h
  obtain ⟨pcesvn, hsvn, h⟩ := Option.bind_eq_some_iff.mp h
  obtain ⟨_, _, h⟩ := Option.bind_eq_some_iff.mp h
  obtain ⟨_, _, h⟩ := Option.bind_eq_some_iff.mp h
  obtain ⟨_, _, h⟩ := Option.bind_eq_some_iff.mp h
  obtain ⟨_, _, h⟩ := Option.bind_eq_some_iff.mp h
  obtain ⟨_, _, h⟩ := Option.bind_eq_some_iff.mp h
  obtain ⟨_, _, h⟩ := Option.bind_eq_some_iff.mp h
  obtain ⟨_, _, h⟩ := Option.bind_eq_some_iff.mp h
  obtain ⟨_, _, h⟩ := Option.bind_eq_some_iff.mp h
  obtain ⟨_, _, h⟩ := Option.bind_eq_some_iff.mp h
  cases h
  exact ⟨by rw [SqlRow.platformName, hqe, hpce], hcpu, hsvn⟩

theorem getPckcert_of_row {tables : Tables} {rec : PckCertRecord} {qeid pceid cpusvn pcesvn : String}
    (h : joined tables row = some rec)
    (hrow : db[Keys.pckcert env rec.qeid rec.pceid rec.cpusvn rec.pcesvn]? = some (.pckcert rec))
    (hqe : row.word "qe_id" = some qeid) (hpce : row.word "pce_id" = some pceid)
    (hcpu : row.word "cpu_svn" = some cpusvn) (hsvn : row.word "pce_svn" = some pcesvn) :
    getPckcert env db qeid cpusvn pcesvn pceid = some rec := by
  obtain ⟨hname, hcpuName, hsvnName⟩ := joined_names h
  obtain ⟨hqeName, hpceName⟩ := Prod.mk.inj hname
  have h₁ := lower_of_canonical hqeName hqe
  have h₂ := lower_of_canonical hpceName hpce
  have h₃ := lower_of_canonical hcpuName hcpu
  have h₄ := lower_of_canonical hsvnName hsvn
  refine getPckcert_eq_some.mpr ⟨?_, h₁, h₂, h₃, h₄⟩
  rw [← Keys.pckcert_congr h₁ h₂ h₃ h₄]
  exact hrow

end Reads

section Conversion

variable {env : Env} {tables : Tables} {certificates : Certificates} {start out : Database}

/-- What the platform tables leave. -/
structure PlatformTables (env : Env) (tables : Tables) (start out : Database) : Prop where
  size : out.size = start.size + (tables "platform_tcbs").length + (tables "platforms").length
  keeps : ∀ (k : List UInt8) (r : Row), start[k]? = some r → out[k]? = some r
  level : ∀ row ∈ tables "platform_tcbs", ∃ k r, LevelRow env tables row k r ∧ out[k]? = some r
  cert : ∀ row ∈ tables "pck_cert", ∃ pool c, CertOf row pool c ∧
    pool.certs.filter (·.tcbm = c.tcbm) = [c] ∧ ∃ k r, PoolRow env pool k r ∧ out[k]? = some r

theorem convertPlatforms_ok (hcertificates : CertificatesOk (tables "pcs_certificates") certificates)
    (hok : convertPlatforms env tables certificates start = .ok out) :
    PlatformTables env tables start out := by
  obtain ⟨chains, pools, state, final, hchains, hpools, hcerts, hlevels, hok⟩ :=
    convertPlatforms_eq_ok.mp hok
  have hchains : ∀ ca c, chains.lookup ca = some c → issuerChainOf tables ca = some c :=
    foldlM_inv (P := fun chains : List (String × String) =>
      ∀ ca c, chains.lookup ca = some c → issuerChainOf tables ca = some c) (fun _ _ h => by cases h)
      (fun _ _ _ h hstep => addChain_ok hcertificates h hstep) hchains
  have hempty : PlatformsOk tables [] [] ∧ ∀ p ∈ ([] : List PlatformPool), p.certs = [] :=
    ⟨⟨⟨List.nodup_nil, by simp, by simp⟩, List.nodup_nil, rfl, by simp, by simp⟩, by simp⟩
  obtain ⟨hplatforms, hbare⟩ := foldlM_prefix
    (P := fun done pools => PlatformsOk tables done pools ∧ ∀ p ∈ pools, p.certs = []) hempty
    (fun _ _ _ _ h hstep => addPlatform_ok hchains h hstep) hpools
  have hnone : CertsOk [] pools :=
    ⟨List.nodup_nil, by simp, fun p hp c hc => by simp [hbare p hp] at hc,
      fun p hp => by simp [hbare p hp], fun p hp hne => absurd (hbare p hp) hne⟩
  obtain ⟨hplatforms, hcerts⟩ := foldlM_prefix
    (P := fun done s => PlatformsOk tables (tables "platforms") s.1 ∧ CertsOk done s.1)
    ⟨hplatforms, hnone⟩ (fun _ _ _ _ h hstep => addPckCert_ok h hstep) hcerts
  have hfinal : LevelsOk env tables start (tables "platform_tcbs") final :=
    foldlM_prefix (P := LevelsOk env tables start) ⟨hplatforms, hcerts, .nil start⟩
      (fun _ _ _ _ h hstep => addPlatformTcb_ok h hstep) hlevels
  have hadded : Added (PoolRow env) final.2 final.1 out :=
    added_of_steps (fun _ pool _ hadd => ⟨_, _, ⟨rfl, rfl⟩, hadd⟩) hok
  refine ⟨?_, fun k r hr => hadded.keeps k r (hfinal.levels.keeps k r hr), fun row hrow => ?_,
    fun row hrow => ?_⟩
  · rw [hadded.size, hfinal.levels.size, hfinal.platforms.length]
  · obtain ⟨k, r, hlevel, hr⟩ := hfinal.levels.row row hrow
    exact ⟨k, r, hlevel, hadded.keeps k r hr⟩
  · obtain ⟨pool, hpool, c, hc, hof⟩ := hfinal.certs.here row hrow
    refine ⟨pool, c, hof, ?_, hadded.row pool hpool⟩
    exact filter_of_nodup (hfinal.certs.once pool hpool) hc

/-- What an import leaves: every row of the snapshot is in the destination. -/
structure Arrived (env : Env) (tables : Tables) (out : Database) : Prop where
  count : out.size = rowCount tables
  levels : ∀ row ∈ tables "platform_tcbs", ∃ k r, LevelRow env tables row k r ∧ out[k]? = some r
  certs : ∀ row ∈ tables "pck_cert", ∃ pool c, CertOf row pool c ∧
    pool.certs.filter (·.tcbm = c.tcbm) = [c] ∧ ∃ k r, PoolRow env pool k r ∧ out[k]? = some r
  tcbs : ∀ row ∈ tables "fmspc_tcbs", ∃ k r, TcbRow env row k r ∧ out[k]? = some r
  identities : ∀ row ∈ tables "enclave_identities", ∃ k r, IdentityRow env row k r ∧ out[k]? = some r
  rootCrl : ∀ row ∈ tables "pcs_certificates", ∀ crl, row.payload "crl" = some crl → crl ≠ [] →
    out[Keys.rootcacrl]? = some (.rootcacrl crl)
  pckCrls : ∀ row ∈ tables "pck_crl", ∃ k r, PckCrlRow env row k r ∧ out[k]? = some r
  crls : ∀ row ∈ tables "crl_cache", ∃ k r, CrlRow env row k r ∧ out[k]? = some r
  registered : ∀ row ∈ tables "platforms_registered", ∃ k r, RegisteredRow env row k r ∧
    out[k]? = some r
  policies : ∃ policies, PoliciesOk (tables "appraisal_policies") policies ∧
    ∀ fmspc ∈ (policies.map AppraisalPolicy.fmspc).eraseDups,
      ∃ k r, PolicyRow env policies fmspc k r ∧ out[k]? = some r

/-- Whatever snapshot is accepted, the import counts and stores every row. -/
theorem convert_arrived (hok : convert env tables = .ok out) : Arrived env tables out := by
  obtain ⟨certificates, hcerts, hok⟩ := bind_eq_ok.mp hok
  obtain ⟨db₁, h₁, hok⟩ := bind_eq_ok.mp hok
  obtain ⟨db₂, h₂, hok⟩ := bind_eq_ok.mp hok
  obtain ⟨db₆, hcollateral, hok⟩ := bind_eq_ok.mp hok
  obtain ⟨db₃, h₃, hcollateral⟩ := bind_eq_ok.mp hcollateral
  obtain ⟨db₄, h₄, hcollateral⟩ := bind_eq_ok.mp hcollateral
  obtain ⟨db₅, h₅, h₆⟩ := bind_eq_ok.mp hcollateral
  obtain ⟨db₇, h₇, hok⟩ := bind_eq_ok.mp hok
  obtain ⟨policies, hpolicies, h₈⟩ := bind_eq_ok.mp hok
  have hcerts : CertificatesOk (tables "pcs_certificates") certificates :=
    foldlM_prefix (P := CertificatesOk) ⟨List.nodup_nil, by simp, fun _ _ h => by cases h⟩
      (fun _ _ _ _ h hstep => addCertificate_ok h hstep) hcerts
  have hpolicies : PoliciesOk (tables "appraisal_policies") policies :=
    foldlM_prefix (P := PoliciesOk) ⟨by simp, by simp, by simp⟩
      (fun _ _ _ _ h hstep => addPolicy_ok h hstep) hpolicies
  have tcbs : Added (TcbRow env) ∅ (tables "fmspc_tcbs") db₁ := added_of_steps (fun db row out h => by
    obtain ⟨rec, hof, hadd⟩ := convertTcb_eq_ok h
    exact ⟨_, _, ⟨rec, hof, rfl, rfl⟩, hadd⟩) h₁
  have platforms := convertPlatforms_ok hcerts h₂
  have identities : Added (IdentityRow env) db₂ (tables "enclave_identities") db₃ :=
    added_of_steps (fun db row out h => by
      obtain ⟨rec, hof, hadd⟩ := convertIdentity_eq_ok h
      exact ⟨_, _, ⟨rec, hof, rfl, rfl⟩, hadd⟩) h₃
  have root : RootCrlOk db₃ (tables "pcs_certificates") db₄ :=
    foldlM_prefix (P := RootCrlOk db₃) ⟨rfl, fun _ _ h => h, by simp⟩
      (fun _ _ _ _ h hstep => convertRootCrl_ok h hstep) h₄
  have pckCrls : Added (PckCrlRow env) db₄ (tables "pck_crl") db₅ :=
    added_of_steps (fun db row out h => by
      obtain ⟨rec, hof, hadd⟩ := convertPckCrl_eq_ok h
      exact ⟨_, _, ⟨rec, hof, rfl, rfl⟩, hadd⟩) h₅
  have crls : Added (CrlRow env) db₅ (tables "crl_cache") db₆ :=
    added_of_steps (fun db row out h => by
      obtain ⟨rec, hof, hadd⟩ := convertCrl_eq_ok h
      exact ⟨_, _, ⟨rec, hof, rfl, rfl⟩, hadd⟩) h₆
  have registered : Added (RegisteredRow env) db₆ (tables "platforms_registered") db₇ :=
    added_of_steps (fun db row out h => by
      obtain ⟨p, hof, hadd⟩ := convertRegistered_eq_ok h
      exact ⟨_, _, ⟨p, hof, rfl, rfl⟩, hadd⟩) h₇
  have lists : Added (PolicyRow env policies) db₇
      (policies.map AppraisalPolicy.fmspc).eraseDups out :=
    added_of_steps (fun db fmspc out h => ⟨_, _, ⟨rfl, rfl⟩, h⟩) h₈
  -- what a table left is still there at the end
  have from₇ := lists.keeps
  have from₆ := fun k r hr => from₇ k r (registered.keeps k r hr)
  have from₅ := fun k r hr => from₆ k r (crls.keeps k r hr)
  have from₄ := fun k r hr => from₅ k r (pckCrls.keeps k r hr)
  have from₃ := fun k r hr => from₄ k r (root.keeps k r hr)
  have from₂ := fun k r hr => from₃ k r (identities.keeps k r hr)
  have from₁ := fun k r hr => from₂ k r (platforms.keeps k r hr)
  exact {
    count := by
      rw [lists.size, registered.size, crls.size, pckCrls.size, root.size, identities.size,
        platforms.size, tcbs.size, hpolicies.fmspcs, rowCount]
      have hempty : (∅ : Database).size = 0 := rfl
      omega
    levels := fun row hrow => kept from₂ (platforms.level row hrow)
    certs := fun row hrow => by
      obtain ⟨pool, c, hof, honce, hpool⟩ := platforms.cert row hrow
      exact ⟨pool, c, hof, honce, kept from₂ hpool⟩
    tcbs := fun row hrow => kept from₁ (tcbs.row row hrow)
    identities := fun row hrow => kept from₃ (identities.row row hrow)
    rootCrl := fun row hrow crl hcrl hne => from₄ _ _ (root.row row hrow crl hcrl hne)
    pckCrls := fun row hrow => kept from₅ (pckCrls.row row hrow)
    crls := fun row hrow => kept from₆ (crls.row row hrow)
    registered := fun row hrow => kept from₇ (registered.row row hrow)
    policies := ⟨policies, hpolicies, lists.row⟩ }

/-- The documents of the snapshot leave room for the record around them. -/
structure Shallow (env : Env) (tables : Tables) : Prop where
  tcbs : ∀ row ∈ tables "fmspc_tcbs", ∀ document,
    (row.payload "tcbinfo").bind env.fromSlice = some document → document.depth < 127
  identities : ∀ row ∈ tables "enclave_identities", ∀ document,
    (row.payload "identity").bind env.fromSlice = some document → document.depth < 127

theorem lossless_of_shallow (hok : convert env tables = .ok out) (h : Shallow env tables) :
    Lossless tables env out := by
  have arrived := convert_arrived hok
  constructor
  · exact arrived.count
  · intro row hrow
    obtain ⟨k, r, ⟨rec, hjoin, rfl, rfl⟩, hr⟩ := arrived.levels row hrow
    exact ⟨rec, hjoin, fun qeid pceid cpusvn pcesvn => getPckcert_of_row hjoin hr⟩
  · intro row hrow
    obtain ⟨pool, c, hof, honce, k, r, ⟨rfl, rfl⟩, hr⟩ := arrived.certs row hrow
    obtain ⟨hname, _⟩ := Prod.mk.inj hof.name
    exact ⟨pool, c, hof, honce, fun qeid pceid => getPlatformPool_of_row hname hr⟩
  · intro row hrow
    obtain ⟨k, r, ⟨rec, hof, rfl, rfl⟩, hr⟩ := arrived.tcbs row hrow
    have hdepth := h.tcbs row hrow rec.tcbinfo hof.parsed
    exact ⟨rec, hof, fun fmspc update => getTcb_of_row hof hr (Nat.succ_lt_succ hdepth)⟩
  · intro row hrow
    obtain ⟨k, r, ⟨rec, hof, rfl, rfl⟩, hr⟩ := arrived.identities row hrow
    have hdepth := h.identities row hrow rec.identity hof.parsed
    exact ⟨rec, hof, fun update => getIdentity_of_row hof hr (Nat.succ_lt_succ hdepth)⟩
  · intro row hrow crl hcrl hne
    rw [getRootcacrl, arrived.rootCrl row hrow crl hcrl hne]
    rfl
  · intro row hrow
    obtain ⟨k, r, ⟨rec, hof, rfl, rfl⟩, hr⟩ := arrived.pckCrls row hrow
    exact ⟨rec, hof, fun ca => getPckcrl_of_row hof hr⟩
  · intro row hrow
    obtain ⟨k, r, ⟨rec, hof, rfl, rfl⟩, hr⟩ := arrived.crls row hrow
    refine ⟨rec, hof, ?_⟩
    rw [getCrl, hr]
    rfl
  · intro row hrow
    obtain ⟨k, r, ⟨p, hof, rfl, rfl⟩, hr⟩ := arrived.registered row hrow
    exact ⟨p, hof, Queue.mem_takeRegistered.mpr ⟨_, hr, Queue.pregKey_word p, rfl⟩⟩
  · intro row hrow
    obtain ⟨policies, hpolicies, hlists⟩ := arrived.policies
    obtain ⟨p, hp, hof⟩ := hpolicies.row row hrow
    have hlisted : p.fmspc ∈ (policies.map AppraisalPolicy.fmspc).eraseDups :=
      List.mem_eraseDups.mpr (List.mem_map_of_mem hp)
    obtain ⟨k, r, ⟨rfl, rfl⟩, hr⟩ := hlists p.fmspc hlisted
    exact ⟨p, _, hof, policy_once hpolicies.distinct hp, fun fmspc => storedList_of_row hof hr⟩

/-- A document that is answered was not too deep. -/
theorem shallow_of_lossless (h : Lossless tables env out) : Shallow env tables where
  tcbs row hrow document hdocument := by
    obtain ⟨rec, hof, hread⟩ := h.tcbs row hrow
    obtain ⟨fmspc, hfmspc, _⟩ := canonical_eq_some.mp hof.fmspc
    obtain ⟨update, hupdate⟩ := hof.known
    cases hof.parsed.symm.trans hdocument
    exact Nat.lt_of_succ_lt_succ (depth_of_getTcb (hread fmspc update hfmspc (hupdate ▸ hof.update)))
  identities row hrow document hdocument := by
    obtain ⟨rec, hof, hread⟩ := h.identities row hrow
    obtain ⟨update, hupdate⟩ := hof.known
    cases hof.parsed.symm.trans hdocument
    exact Nat.lt_of_succ_lt_succ (depth_of_getIdentity (hread update (hupdate ▸ hof.update)))

/-- An accepted snapshot is answered row by row exactly if its documents are
shallow: a record holds its document one level deeper than the row did. -/
theorem import_lossless_iff (hok : convert env tables = .ok out) :
    Lossless tables env out ↔ Shallow env tables :=
  ⟨shallow_of_lossless, lossless_of_shallow hok⟩

/-- An array in an array, and so on. -/
def nested : Nat → Value
  | 0 => .array []
  | n + 1 => .array [nested n]

theorem depth_nested (n : Nat) : (nested n).depth = n + 1 := by
  induction n with
  | zero => rfl
  | succ n ih => rw [nested, Value.depth, depthItems, depthItems, ih, Nat.max_zero]

def tcbInfo (levels : Value) : Value :=
  .object [("id", .string "SGX"), ("fmspc", .string "00aa00000000"), ("tcbLevels", levels)]

/-- A signed TCB document. -/
def tcbDocument (levels : Value) : Value :=
  .object [("tcbInfo", tcbInfo levels), ("signature", .string "ff")]

theorem depth_tcbDocument (levels : Value) : (tcbDocument levels).depth = levels.depth + 2 := by
  simp [tcbDocument, tcbInfo, Value.depth, depthFields]

def tcbRow (levels : Value) : SqlRow :=
  ⟨"fmspc_tcbs", [("fmspc", .text "00AA00000000"), ("type", .integer 0), ("version", .integer 3),
    ("update_type", .text "STANDARD"), ("tcbinfo", .text (rawJson (tcbDocument levels))),
    ("root_cert_id", .integer 1), ("signing_cert_id", .integer 3)]⟩

def tcbRecord (levels : Value) (issuerChain : String) : TcbRecord :=
  { prodType := 0, fmspc := "00AA00000000", version := 3, updateType := "STANDARD"
    tcbinfo := tcbDocument levels, rawBody := rawJson (tcbDocument levels), issuerChain }

/-- A process that reads this document. -/
def documentEnv (levels : Value) : Env := Keys.readerEnv [tcbDocument levels]

def tcbKey : List UInt8 :=
  Keys.tcb Keys.plainEnv (Keys.prodName 0) 3 "00AA00000000" "STANDARD"

theorem document_of_tcbRow (levels : Value) :
    ((tcbRow levels).payload "tcbinfo").bind (documentEnv levels).fromSlice =
      some (tcbDocument levels) := Keys.readerEnv_first _ _

theorem convertTcb_document {certificates : Certificates} {levels : Value} {root signing : String}
    (hroot : certificates.lookup 1 = some root) (hsigning : certificates.lookup 3 = some signing) :
    convertTcb (documentEnv levels) certificates ∅ (tcbRow levels) =
      .ok ((∅ : Database).insert tcbKey (.tcb (tcbRecord levels (signing ++ root)))) := by
  have hparse : (documentEnv levels).fromSlice (asBytes (rawJson (tcbDocument levels))) =
      some (tcbDocument levels) := Keys.readerEnv_first _ _
  have hsignature : (tcbDocument levels).get "signature" = some (.string "ff") := rfl
  have hsigned : signedDocument (documentEnv levels) (rawJson (tcbDocument levels))
      "fmspc_tcbs.tcbinfo" = .ok (tcbDocument levels) :=
    bind_eq_ok.mpr ⟨_, require_eq_ok.mpr hparse, bind_eq_ok.mpr
      ⟨(), reject_eq_ok.mpr (by rw [hsignature]; decide), rfl⟩⟩
  have hchain : chain certificates (tcbRow levels) "signing_cert_id" = .ok (signing ++ root) :=
    bind_eq_ok.mpr ⟨1, rfl, bind_eq_ok.mpr ⟨(), rfl, bind_eq_ok.mpr ⟨3, rfl, bind_eq_ok.mpr ⟨3, rfl,
      bind_eq_ok.mpr ⟨(), rfl, bind_eq_ok.mpr ⟨root, require_eq_ok.mpr hroot,
        bind_eq_ok.mpr ⟨signing, require_eq_ok.mpr hsigning, rfl⟩⟩⟩⟩⟩⟩⟩
  refine bind_eq_ok.mpr ⟨_, rfl, bind_eq_ok.mpr ⟨_, hsigned, bind_eq_ok.mpr ⟨0, rfl, ?_⟩⟩⟩
  refine bind_eq_ok.mpr ⟨(), rfl, bind_eq_ok.mpr ⟨"00AA00000000", ?_, ?_⟩⟩
  · exact bind_eq_ok.mpr ⟨_, rfl, bind_eq_ok.mpr ⟨(), reject_eq_ok.mpr (by decide), by decide⟩⟩
  refine bind_eq_ok.mpr ⟨3, rfl, bind_eq_ok.mpr ⟨tcbInfo levels, rfl, bind_eq_ok.mpr ⟨(), ?_, ?_⟩⟩⟩
  · have hfmspc : (tcbInfo levels).get "fmspc" = some (.string "00aa00000000") := rfl
    have hid : (tcbInfo levels).get "id" = some (.string "SGX") := rfl
    rw [hfmspc, hid]
    exact reject_eq_ok.mpr (by decide)
  refine bind_eq_ok.mpr ⟨"STANDARD", rfl, bind_eq_ok.mpr ⟨_, hchain, ?_⟩⟩
  rfl

/-- A version 3 certificate of PCESVN 5, issued by the platform CA. -/
def oneLevelDer : List UInt8 :=
  [0x30, 0x81, 0xB2, 0x30, 0x81, 0xAF, 0xA0, 0x03, 0x02, 0x01, 0x02, 0x02, 0x01, 0x01, 0x30,
    0x00, 0x0C, 0x08, 0x50, 0x6C, 0x61, 0x74, 0x66, 0x6F, 0x72, 0x6D, 0x30, 0x81, 0x98, 0x06,
    0x09, 0x2A, 0x86, 0x48, 0x86, 0xF8, 0x4D, 0x01, 0x0D, 0x01, 0x04, 0x81, 0x8A, 0x30, 0x81,
    0x87, 0x30, 0x0F, 0x06, 0x0A, 0x2A, 0x86, 0x48, 0x86, 0xF8, 0x4D, 0x01, 0x0D, 0x01, 0x01,
    0x04, 0x01, 0x01, 0x30, 0x4C, 0x06, 0x0A, 0x2A, 0x86, 0x48, 0x86, 0xF8, 0x4D, 0x01, 0x0D,
    0x01, 0x02, 0x30, 0x3E, 0x30, 0x00, 0x30, 0x00, 0x30, 0x00, 0x30, 0x00, 0x30, 0x00, 0x30,
    0x00, 0x30, 0x00, 0x30, 0x00, 0x30, 0x00, 0x30, 0x00, 0x30, 0x00, 0x30, 0x00, 0x30, 0x00,
    0x30, 0x00, 0x30, 0x00, 0x30, 0x00, 0x30, 0x06, 0x06, 0x00, 0x02, 0x02, 0x00, 0x05, 0x30,
    0x14, 0x06, 0x00, 0x04, 0x10, 0x00, 0x00, 0x00, 0x00, 0x00, 0x00, 0x00, 0x00, 0x00, 0x00,
    0x00, 0x00, 0x00, 0x00, 0x00, 0x00, 0x30, 0x10, 0x06, 0x0A, 0x2A, 0x86, 0x48, 0x86, 0xF8,
    0x4D, 0x01, 0x0D, 0x01, 0x03, 0x04, 0x02, 0x00, 0x00, 0x30, 0x14, 0x06, 0x0A, 0x2A, 0x86,
    0x48, 0x86, 0xF8, 0x4D, 0x01, 0x0D, 0x01, 0x04, 0x04, 0x06, 0x00, 0x00, 0x00, 0x00, 0x00,
    0x00]

def oneLevelCa (id : Int) (cert : String) : SqlRow :=
  ⟨"pcs_certificates", [("id", .integer id), ("crl", .null), ("cert", .text cert)]⟩

def oneLevelCert : SqlRow :=
  ⟨"pck_cert", [("qe_id", .text "aa"), ("pce_id", .text "0000"),
    ("tcbm", .text "000000000000000000000000000000000500"),
    ("pck_cert", .text (PckCert.toPem oneLevelDer))]⟩

/-- A platform with one certificate and one raw level, and a TCB document. -/
def oneLevel : Tables
  | "pcs_certificates" =>
    [oneLevelCa 1 "-----BEGIN%20CERTIFICATE-----root-----END%20CERTIFICATE-----",
      oneLevelCa 3 "-----BEGIN%20CERTIFICATE-----signing-----END%20CERTIFICATE-----",
      oneLevelCa 4 "-----BEGIN%20CERTIFICATE-----ca-----END%20CERTIFICATE-----"]
  | "fmspc_tcbs" => [tcbRow (nested 0)]
  | "pck_certchain" =>
    [⟨"pck_certchain", [("ca", .text "PLATFORM"), ("root_cert_id", .integer 1),
      ("intmd_cert_id", .integer 4)]⟩]
  | "platforms" =>
    [⟨"platforms", [("qe_id", .text "aa"), ("pce_id", .text "0000"),
      ("platform_manifest", .blob [1, 2]), ("enc_ppid", .null), ("fmspc", .text "000000000000"),
      ("ca", .text "PLATFORM")]⟩]
  | "pck_cert" => [oneLevelCert]
  | "platform_tcbs" =>
    [⟨"platform_tcbs", [("qe_id", .text "AA"), ("pce_id", .text "0000"),
      ("cpu_svn", .text "000000000000000000000000000000ff"), ("pce_svn", .text "0600"),
      ("tcbm", .text "000000000000000000000000000000000500")]⟩]
  | _ => []

def oneLevelCertificates : Certificates :=
  [(1, "-----BEGIN%20CERTIFICATE-----root-----END%20CERTIFICATE-----"),
   (3, "-----BEGIN%20CERTIFICATE-----signing-----END%20CERTIFICATE-----"),
   (4, "-----BEGIN%20CERTIFICATE-----ca-----END%20CERTIFICATE-----")]

def oneLevelChain : String :=
  "-----BEGIN%20CERTIFICATE-----ca-----END%20CERTIFICATE-----" ++
    "-----BEGIN%20CERTIFICATE-----root-----END%20CERTIFICATE-----"

def oneLevelPool (certs : List PlatformCert) : PlatformPool :=
  { qeId := "AA", pceId := "0000", encPpid := "", platformManifest := "0102",
    fmspc := "000000000000", ca := "PLATFORM", issuerChain := oneLevelChain, certs }

def oneLevelPools : List PlatformPool :=
  [oneLevelPool [⟨"000000000000000000000000000000000500", PckCert.toPem oneLevelDer⟩]]

/-- The certificate is the one of its row. -/
theorem addPckCert_oneLevel :
    addPckCert ([oneLevelPool []], []) oneLevelCert =
      .ok (oneLevelPools, [(("AA", "0000"), "01")]) := by
  have hparse : PckCert.parsePckCert (PckCert.toPem oneLevelDer) =
      .ok ⟨3, "000000000000", "0000", "01", "00000000000000000000000000000000", 5, "PLATFORM"⟩ := by
    rw [PckCert.parsePckCert_toPem]
    exact toOption_eq_some.mp (by decide +kernel)
  refine bind_eq_ok.mpr ⟨("AA", "0000"), toOption_eq_some.mp (by decide +kernel), ?_⟩
  refine bind_eq_ok.mpr ⟨oneLevelPool [], rfl, ?_⟩
  refine bind_eq_ok.mpr ⟨"000000000000000000000000000000000500",
    toOption_eq_some.mp (by decide +kernel), ?_⟩
  refine bind_eq_ok.mpr ⟨PckCert.toPem oneLevelDer, rfl, ?_⟩
  refine bind_eq_ok.mpr ⟨_, mapError_eq_ok.mpr hparse, ?_⟩
  refine bind_eq_ok.mpr ⟨5, require_eq_ok.mpr (by decide +kernel), ?_⟩
  refine bind_eq_ok.mpr ⟨(), reject_eq_ok.mpr (by decide +kernel), ?_⟩
  refine bind_eq_ok.mpr ⟨(), reject_eq_ok.mpr (by decide +kernel), ?_⟩
  refine bind_eq_ok.mpr ⟨(), reject_eq_ok.mpr (by decide +kernel), ?_⟩
  exact bind_eq_ok.mpr ⟨_, rfl, rfl⟩

theorem convertRootCrl_none {env : Env} (db : Database) (id : Int) (cert : String) :
    convertRootCrl env db (oneLevelCa id cert) = .ok db :=
  bind_eq_ok.mpr ⟨[], rfl, rfl⟩

def tcbChain : String :=
  "-----BEGIN%20CERTIFICATE-----signing-----END%20CERTIFICATE-----" ++
    "-----BEGIN%20CERTIFICATE-----root-----END%20CERTIFICATE-----"

/-- The TCB document of the snapshot, as the store keeps it. -/
def tcbStored (levels : Value) : Database :=
  (∅ : Database).insert tcbKey (.tcb (tcbRecord levels tcbChain))

theorem getTcb_deep {levels : Value} (h : 125 ≤ levels.depth) :
    getTcb (documentEnv levels) (tcbStored levels) 0 "00AA00000000" 3 .standard = none := by
  have hrow : (tcbStored levels)[Keys.tcb (documentEnv levels) (Keys.prodName 0) 3 "00AA00000000"
      UpdateType.standard.asStr]? = some (.tcb (tcbRecord levels tcbChain)) :=
    (get_insert _ _ _ _).trans (if_pos rfl)
  have hdeep : ¬ (tcbRecord levels tcbChain).tcbinfo.depth + 1 < recursionLimit := by
    rw [tcbRecord, depth_tcbDocument, recursionLimit]
    omega
  rw [getTcb, hrow, Option.bind_some, rowTcb, if_neg hdeep]
  rfl

theorem import_lossless_oneLevel :
    ∃ out, convert (documentEnv (nested 0)) oneLevel = .ok out ∧
      Shallow (documentEnv (nested 0)) oneLevel ∧ Lossless oneLevel (documentEnv (nested 0)) out := by
  have hcertificates : (oneLevel "pcs_certificates").foldlM addCertificate [] =
      .ok oneLevelCertificates := toOption_eq_some.mp (by decide +kernel)
  have htcbs : (oneLevel "fmspc_tcbs").foldlM
      (convertTcb (documentEnv (nested 0)) oneLevelCertificates) ∅ = .ok (tcbStored (nested 0)) :=
    bind_eq_ok.mpr ⟨_, convertTcb_document rfl rfl, rfl⟩
  have hchains : (oneLevel "pck_certchain").foldlM (addChain oneLevelCertificates) [] =
      .ok [("PLATFORM", oneLevelChain)] := toOption_eq_some.mp (by decide +kernel)
  have hpools : (oneLevel "platforms").foldlM (addPlatform [("PLATFORM", oneLevelChain)]) [] =
      .ok [oneLevelPool []] := toOption_eq_some.mp (by decide +kernel)
  have hcerts : (oneLevel "pck_cert").foldlM addPckCert ([oneLevelPool []], []) =
      .ok (oneLevelPools, [(("AA", "0000"), "01")]) := by
    rw [show oneLevel "pck_cert" = [oneLevelCert] from rfl, List.foldlM_cons, addPckCert_oneLevel]
    rfl
  have hlevels : ((oneLevel "platform_tcbs").foldlM (addPlatformTcb (documentEnv (nested 0)))
      (oneLevelPools, tcbStored (nested 0))).toOption.any (fun s =>
        (s.1.foldlM (addPool (documentEnv (nested 0))) s.2).toOption.isSome) = true := by
    decide +kernel
  obtain ⟨⟨pools, records⟩, hlevels, hpool⟩ := (Option.any_eq_true _ _).mp hlevels
  obtain ⟨db, hdb⟩ := Option.isSome_iff_exists.mp hpool
  have hok : convert (documentEnv (nested 0)) oneLevel = .ok db := by
    refine bind_eq_ok.mpr ⟨_, hcertificates, bind_eq_ok.mpr ⟨_, htcbs, bind_eq_ok.mpr ⟨db, ?_, ?_⟩⟩⟩
    · exact convertPlatforms_eq_ok.mpr ⟨_, _, _, _, hchains, hpools, hcerts,
        toOption_eq_some.mp hlevels, toOption_eq_some.mp hdb⟩
    · refine bind_eq_ok.mpr ⟨db, bind_eq_ok.mpr ⟨db, rfl, bind_eq_ok.mpr ⟨db, ?_,
        bind_eq_ok.mpr ⟨db, rfl, rfl⟩⟩⟩, rfl⟩
      rw [show oneLevel "pcs_certificates" = [_, _, _] from rfl]
      exact bind_eq_ok.mpr ⟨db, convertRootCrl_none db _ _, bind_eq_ok.mpr ⟨db,
        convertRootCrl_none db _ _, bind_eq_ok.mpr ⟨db, convertRootCrl_none db _ _, rfl⟩⟩⟩
  have hshallow : Shallow (documentEnv (nested 0)) oneLevel := by
    refine ⟨fun row hrow document hdocument => ?_, fun row hrow => by cases hrow⟩
    obtain rfl := List.mem_singleton.mp hrow
    cases (document_of_tcbRow (nested 0)).symm.trans hdocument
    rw [depth_tcbDocument, depth_nested]
    decide
  exact ⟨db, hok, hshallow, (import_lossless_iff hok).mpr hshallow⟩

/-- A TCB document that nests as deep as JSON may, and the two certificates of
its chain. -/
def deepTables : Tables
  | "pcs_certificates" =>
    [oneLevelCa 1 "-----BEGIN%20CERTIFICATE-----root-----END%20CERTIFICATE-----",
      oneLevelCa 3 "-----BEGIN%20CERTIFICATE-----signing-----END%20CERTIFICATE-----"]
  | "fmspc_tcbs" => [tcbRow (nested 124)]
  | _ => []

def deepCertificates : Certificates :=
  [(1, "-----BEGIN%20CERTIFICATE-----root-----END%20CERTIFICATE-----"),
   (3, "-----BEGIN%20CERTIFICATE-----signing-----END%20CERTIFICATE-----")]

theorem convert_deepTables :
    convert (documentEnv (nested 124)) deepTables = .ok (tcbStored (nested 124)) := by
  have hcertificates : (deepTables "pcs_certificates").foldlM addCertificate [] =
      .ok deepCertificates := toOption_eq_some.mp (by decide +kernel)
  have htcbs : convertTcb (documentEnv (nested 124)) deepCertificates ∅ (tcbRow (nested 124)) =
      .ok (tcbStored (nested 124)) := convertTcb_document rfl rfl
  refine bind_eq_ok.mpr ⟨_, hcertificates, bind_eq_ok.mpr ⟨tcbStored (nested 124),
    bind_eq_ok.mpr ⟨_, htcbs, rfl⟩, bind_eq_ok.mpr ⟨tcbStored (nested 124), rfl, ?_⟩⟩⟩
  refine bind_eq_ok.mpr ⟨tcbStored (nested 124), bind_eq_ok.mpr ⟨_, rfl, bind_eq_ok.mpr ⟨_, ?_,
    bind_eq_ok.mpr ⟨_, rfl, rfl⟩⟩⟩, rfl⟩
  exact bind_eq_ok.mpr ⟨_, convertRootCrl_none _ _ _, bind_eq_ok.mpr ⟨_,
    convertRootCrl_none _ _ _, rfl⟩⟩

/-- The document is imported, and the store does not answer it. -/
theorem deep_document_unread :
    ∃ out, Function.Injective (documentEnv (nested 124)).hash128Hex ∧
      convert (documentEnv (nested 124)) deepTables = .ok out ∧
      getTcb (documentEnv (nested 124)) out 0 "00AA00000000" 3 .standard = none ∧
      ¬ Lossless deepTables (documentEnv (nested 124)) out := by
  refine ⟨_, Keys.plainEnv_injective, convert_deepTables, getTcb_deep ?_, fun h => ?_⟩
  · rw [depth_nested]
  · have hlt := (shallow_of_lossless h).tcbs _ List.mem_cons_self _ (document_of_tcbRow (nested 124))
    rw [depth_tcbDocument, depth_nested] at hlt
    exact absurd hlt (by decide)

end Conversion

end Pccs.IntelImport
