import Pccs.IntelImport
import Mathlib.Data.List.Nodup

/-!
# What a row of a snapshot becomes

One statement for each converter: a row that was accepted gives exactly one
row of the destination, under a key that was free, and the record holds what
the row held, its identifiers in canonical case. What a row holds is read off
its values, and the readers of the converters are compared with that.
-/
namespace Pccs.IntelImport

open Text Encoding Json Fallible KeyValue Store

variable {env : Env}

namespace SqlValue

/-- The bytes of a value. -/
def bytes : SqlValue → List UInt8
  | .text s => asBytes s
  | .blob b => b
  | _ => []

/-- The text of a value: a BLOB may hold one as well. -/
def word : SqlValue → Option String
  | .text s => some s
  | .blob b => Cache.fromUtf8 b
  | _ => none

/-- A missing text is an empty one. -/
def nullableWord : SqlValue → Option String
  | .null => some ""
  | v => v.word

def number : SqlValue → Option Int
  | .integer i => some i
  | _ => none

theorem bytes_of_word {v : SqlValue} {text : String} (h : v.word = some text) :
    v.bytes = asBytes text := by
  cases v with
  | text s => cases h; rfl
  | blob b =>
    rw [word, Cache.fromUtf8] at h
    split at h
    · rename_i hvalid
      cases h
      exact hvalid.symm
    · cases h
  | null => cases h
  | integer i => cases h
  | real r => cases h

end SqlValue

namespace SqlRow

def payload (row : SqlRow) (column : String) : Option (List UInt8) :=
  (row.fields.lookup column).map SqlValue.bytes

def word (row : SqlRow) (column : String) : Option String :=
  (row.fields.lookup column).bind SqlValue.word

def nullableWord (row : SqlRow) (column : String) : Option String :=
  (row.fields.lookup column).bind SqlValue.nullableWord

def number (row : SqlRow) (column : String) : Option Int :=
  (row.fields.lookup column).bind SqlValue.number

/-- An identifier up to letter case. -/
def canonical (row : SqlRow) (column : String) : Option String :=
  (row.word column).map toAsciiUppercase

def platformName (row : SqlRow) : Option String × Option String :=
  (row.canonical "qe_id", row.canonical "pce_id")

def certName (row : SqlRow) : (Option String × Option String) × Option String :=
  (row.platformName, row.canonical "tcbm")

end SqlRow

section Fields

variable {row : SqlRow}

/-- A reader looks at the value of its column. -/
theorem value_eq_ok {column : String} {v : SqlValue} :
    row.value column = .ok v ↔ row.fields.lookup column = some v := require_eq_ok

theorem text_eq_ok {column text : String} :
    row.text column = .ok text ↔ row.word column = some text := by
  rw [SqlRow.text, SqlRow.word, bind_eq_ok, Option.bind_eq_some_iff]
  refine exists_congr fun v => and_congr value_eq_ok ?_
  cases v with
  | text s => exact Except.ok.injEq s text ▸ Option.some.injEq s text ▸ Iff.rfl
  | blob b => exact require_eq_ok
  | null => exact iff_of_false nofun nofun
  | integer i => exact iff_of_false nofun nofun
  | real r => exact iff_of_false nofun nofun

theorem nullableText_eq_ok {column text : String} :
    row.nullableText column = .ok text ↔ row.nullableWord column = some text := by
  cases hv : row.fields.lookup column with
  | none =>
    rw [SqlRow.nullableText, SqlRow.nullableWord, SqlRow.value, hv]
    exact iff_of_false nofun nofun
  | some v =>
    rw [SqlRow.nullableText, SqlRow.nullableWord, value_eq_ok.mpr hv, ok_bind, hv, Option.bind_some]
    cases v with
    | null => exact Except.ok.injEq "" text ▸ Option.some.injEq "" text ▸ Iff.rfl
    | _ =>
      rw [text_eq_ok, SqlRow.word, hv]
      rfl

theorem int_eq_ok {column : String} {i : Int} :
    row.int column = .ok i ↔ row.number column = some i := by
  rw [SqlRow.int, SqlRow.number, bind_eq_ok, Option.bind_eq_some_iff]
  refine exists_congr fun v => and_congr value_eq_ok ?_
  cases v with
  | integer j => exact Except.ok.injEq j i ▸ Option.some.injEq j i ▸ Iff.rfl
  | null => exact iff_of_false nofun nofun
  | text s => exact iff_of_false nofun nofun
  | blob b => exact iff_of_false nofun nofun
  | real r => exact iff_of_false nofun nofun

theorem payload_of_word {column text : String} (h : row.word column = some text) :
    row.payload column = some (asBytes text) := by
  obtain ⟨v, hv, hword⟩ := Option.bind_eq_some_iff.mp h
  rw [SqlRow.payload, hv, Option.map_some, SqlValue.bytes_of_word hword]

/-- What is read as a BLOB is the bytes of the value. -/
theorem payload_of_blob {column : String} {bytes : List UInt8} (h : row.blob column = .ok bytes) :
    row.payload column = some bytes := by
  obtain ⟨v, hv, h⟩ := bind_eq_ok.mp h
  rw [SqlRow.payload, value_eq_ok.mp hv, Option.map_some]
  cases v with
  | null => exact congrArg some (pure_eq_ok.mp h)
  | blob b => exact congrArg some (pure_eq_ok.mp h)
  | text s =>
    -- only the empty text is read as a BLOB
    by_cases hempty : s = ""
    · subst hempty
      exact congrArg some (pure_eq_ok.mp h)
    · simp [hempty] at h
  | integer i => cases h
  | real r => cases h

theorem canonical_eq_some {column out : String} :
    row.canonical column = some out ↔
      ∃ text, row.word column = some text ∧ toAsciiUppercase text = out := by
  simp only [SqlRow.canonical, Option.map_eq_some_iff]

/-- The canonical identifier is the one of the row up to letter case. -/
theorem lower_of_canonical {column out text : String} (h : row.canonical column = some out)
    (htext : row.word column = some text) : toAsciiLowercase out = toAsciiLowercase text := by
  obtain ⟨text', htext', rfl⟩ := canonical_eq_some.mp h
  cases htext.symm.trans htext'
  exact toAsciiLowercase_uppercase text

theorem hexField_eq_ok {field out : String} {n : Nat} (h : row.hexField field n = .ok out) :
    row.canonical field = some out ∧ IsUpper out ∧ NoSlash out := by
  obtain ⟨text, htext, h⟩ := bind_eq_ok.mp h
  obtain ⟨_, hhex, h⟩ := bind_eq_ok.mp h
  cases pure_eq_ok.mp h
  have hhex : Validate.isHex text n = true := by simpa using reject_eq_ok.mp hhex
  refine ⟨canonical_eq_some.mpr ⟨text, text_eq_ok.mp htext, rfl⟩, isUpper_uppercase _,
    (noSlash_congr ?_).mpr (Validate.noSlash_of_isHex hhex)⟩
  exact toAsciiLowercase_uppercase text

/-- What the name of a platform is made of. -/
structure NameOf (row : SqlRow) (qeId pceId : String) : Prop where
  name : row.platformName = (some qeId, some pceId)
  qeUpper : IsUpper qeId
  pceUpper : IsUpper pceId
  pceSlash : NoSlash pceId

theorem platformKey_eq_ok {key : String × String} (h : row.platformKey = .ok key) :
    NameOf row key.1 key.2 := by
  obtain ⟨qeId, hqe, h⟩ := bind_eq_ok.mp h
  obtain ⟨pceId, hpce, h⟩ := bind_eq_ok.mp h
  cases pure_eq_ok.mp h
  obtain ⟨hcanon, hupper, hslash⟩ := hexField_eq_ok hpce
  obtain ⟨id, hid, hqe⟩ := bind_eq_ok.mp hqe
  obtain ⟨_, _, hqe⟩ := bind_eq_ok.mp hqe
  cases pure_eq_ok.mp hqe
  have hcanonQe : row.canonical "qe_id" = some (toAsciiUppercase id) :=
    canonical_eq_some.mpr ⟨id, text_eq_ok.mp hid, rfl⟩
  exact ⟨by rw [SqlRow.platformName, hcanonQe, hcanon], isUpper_uppercase _, hupper, hslash⟩

/-- The credentials of a row, as the destination spells them. -/
def CredentialsOf (row : SqlRow) (encPpid platformManifest : String) : Prop :=
  (∃ ppid, row.payload "enc_ppid" = some ppid ∧ encPpid = hexEncodeUpper ppid) ∧
    ∃ manifest, row.payload "platform_manifest" = some manifest ∧
      platformManifest = hexEncodeUpper manifest

theorem credentials_eq_ok {encPpid manifest : String}
    (h : row.credentials = .ok (encPpid, manifest)) : CredentialsOf row encPpid manifest := by
  obtain ⟨ppid, hppid, h⟩ := bind_eq_ok.mp h
  obtain ⟨_, _, h⟩ := bind_eq_ok.mp h
  obtain ⟨bytes, hbytes, h⟩ := bind_eq_ok.mp h
  cases pure_eq_ok.mp h
  exact ⟨⟨ppid, payload_of_blob hppid, rfl⟩, bytes, payload_of_blob hbytes, rfl⟩

theorem version_eq_ok {version : Nat} (h : row.version = .ok version) :
    row.number "version" = some (version : Int) := by
  obtain ⟨n, hn, h⟩ := bind_eq_ok.mp h
  obtain ⟨_, hrange, h⟩ := bind_eq_ok.mp h
  cases pure_eq_ok.mp h
  have hrange := reject_eq_ok.mp hrange
  rw [int_eq_ok.mp hn]
  congr 1
  omega

/-- A row is of one of the two update types that have documents. -/
theorem update_eq_ok {update : String} (h : row.update = .ok update) :
    row.word "update_type" = some update ∧ ∃ u : UpdateType, u.asStr = update := by
  obtain ⟨s, hs, h⟩ := bind_eq_ok.mp h
  obtain ⟨_, hknown, h⟩ := bind_eq_ok.mp h
  cases pure_eq_ok.mp h
  refine ⟨text_eq_ok.mp hs, ?_⟩
  have hknown := reject_eq_ok.mp hknown
  by_cases hstandard : update = "STANDARD"
  · exact ⟨.standard, hstandard.symm⟩
  · refine ⟨.early, ?_⟩
    by_contra hearly
    exact hknown ⟨hstandard, fun he => hearly he.symm⟩

theorem ca_eq_ok {ca : String} (h : row.ca = .ok ca) :
    row.canonical "ca" = some ca ∧ (ca = "PLATFORM" ∨ ca = "PROCESSOR") := by
  obtain ⟨text, htext, h⟩ := bind_eq_ok.mp h
  obtain ⟨_, hknown, h⟩ := bind_eq_ok.mp h
  cases pure_eq_ok.mp h
  have hknown := reject_eq_ok.mp hknown
  exact ⟨canonical_eq_some.mpr ⟨text, text_eq_ok.mp htext, rfl⟩, by tauto⟩

/-- A text that is there is the nullable text. -/
theorem nullableText_of_text {column text : String} (h : row.nullableText column = .ok text)
    (hne : text ≠ "") : row.text column = .ok text := by
  obtain ⟨v, hv, h⟩ := bind_eq_ok.mp h
  cases v with
  | null => exact absurd (pure_eq_ok.mp h).symm hne
  | integer i => exact h
  | real r => exact h
  | text s => exact h
  | blob b => exact h

theorem nullableCa_eq_ok {ca : String} (h : row.nullableCa = .ok ca) :
    ∃ text, row.nullableWord "ca" = some text ∧ ca = toAsciiUppercase text := by
  obtain ⟨text, htext, h⟩ := bind_eq_ok.mp h
  refine ⟨text, nullableText_eq_ok.mp htext, ?_⟩
  split at h
  · rename_i hempty
    cases pure_eq_ok.mp h
    rw [hempty]
    rfl
  · rename_i hne
    obtain ⟨hcanon, _⟩ := ca_eq_ok h
    obtain ⟨text', htext', hca⟩ := canonical_eq_some.mp hcanon
    cases (text_eq_ok.mp (nullableText_of_text htext hne)).symm.trans htext'
    exact hca.symm

end Fields

section Entries

variable {db out : Database} {row : SqlRow}

theorem add_eq_ok {key : List UInt8} {r : Row} (h : add db key r = .ok out) :
    db[key]? = none ∧ out = db.insert key r := by
  unfold add at h
  split at h
  · cases h
  · rename_i hnone
    cases h
    exact ⟨by simpa using hnone, rfl⟩

/-- The record of a TCB document holds its row. -/
structure TcbOf (env : Env) (row : SqlRow) (rec : TcbRecord) : Prop where
  type : row.number "type" = some (rec.prodType : Int)
  fmspc : row.canonical "fmspc" = some rec.fmspc
  version : row.number "version" = some (rec.version : Int)
  update : row.word "update_type" = some rec.updateType
  known : ∃ u : UpdateType, u.asStr = rec.updateType
  body : row.payload "tcbinfo" = some (asBytes rec.rawBody)
  document : env.fromSlice (asBytes rec.rawBody) = some rec.tcbinfo

/-- The document of a record is the one its row holds. -/
theorem TcbOf.parsed {rec : TcbRecord} (h : TcbOf env row rec) :
    (row.payload "tcbinfo").bind env.fromSlice = some rec.tcbinfo := by
  rw [h.body, Option.bind_some, h.document]

theorem signedDocument_eq_ok {rawBody field : String} {document : Value}
    (h : signedDocument env rawBody field = .ok document) :
    env.fromSlice (asBytes rawBody) = some document := by
  obtain ⟨document', hparse, h⟩ := bind_eq_ok.mp h
  obtain ⟨_, _, h⟩ := bind_eq_ok.mp h
  cases pure_eq_ok.mp h
  exact require_eq_ok.mp hparse

theorem convertTcb_eq_ok {certificates : Certificates}
    (h : convertTcb env certificates db row = .ok out) :
    ∃ rec, TcbOf env row rec ∧ add db (Keys.tcb env (Keys.prodName rec.prodType) rec.version rec.fmspc
      rec.updateType) (.tcb rec) = .ok out := by
  obtain ⟨rawBody, hbody, h⟩ := bind_eq_ok.mp h
  obtain ⟨tcbinfo, hdocument, h⟩ := bind_eq_ok.mp h
  obtain ⟨type, htype, h⟩ := bind_eq_ok.mp h
  obtain ⟨_, hrange, h⟩ := bind_eq_ok.mp h
  obtain ⟨fmspc, hfmspc, h⟩ := bind_eq_ok.mp h
  obtain ⟨version, hversion, h⟩ := bind_eq_ok.mp h
  obtain ⟨info, _, h⟩ := bind_eq_ok.mp h
  obtain ⟨_, _, h⟩ := bind_eq_ok.mp h
  obtain ⟨updateType, hupdate, h⟩ := bind_eq_ok.mp h
  obtain ⟨issuerChain, _, h⟩ := bind_eq_ok.mp h
  have hnat : (type.toNat : Int) = type := by
    have hrange := reject_eq_ok.mp hrange
    omega
  exact ⟨_, ⟨by rw [hnat]; exact int_eq_ok.mp htype, (hexField_eq_ok hfmspc).1,
    version_eq_ok hversion, (update_eq_ok hupdate).1, (update_eq_ok hupdate).2,
    payload_of_word (text_eq_ok.mp hbody), signedDocument_eq_ok hdocument⟩, h⟩

structure IdentityOf (env : Env) (row : SqlRow) (rec : IdentityRecord) : Prop where
  id : row.number "id" = some (rec.enclaveId : Int)
  version : row.number "version" = some (rec.version : Int)
  update : row.word "update_type" = some rec.updateType
  known : ∃ u : UpdateType, u.asStr = rec.updateType
  body : row.payload "identity" = some (asBytes rec.rawBody)
  document : env.fromSlice (asBytes rec.rawBody) = some rec.identity

theorem IdentityOf.parsed {rec : IdentityRecord} (h : IdentityOf env row rec) :
    (row.payload "identity").bind env.fromSlice = some rec.identity := by
  rw [h.body, Option.bind_some, h.document]

theorem convertIdentity_eq_ok {certificates : Certificates}
    (h : convertIdentity env certificates db row = .ok out) :
    ∃ rec, IdentityOf env row rec ∧ add db (Keys.identity env (Keys.identityName rec.enclaveId)
      rec.version rec.updateType) (.identity rec) = .ok out := by
  obtain ⟨id, hid, h⟩ := bind_eq_ok.mp h
  obtain ⟨_, hrange, h⟩ := bind_eq_ok.mp h
  obtain ⟨rawBody, hbody, h⟩ := bind_eq_ok.mp h
  obtain ⟨identity, hdocument, h⟩ := bind_eq_ok.mp h
  obtain ⟨_, _, h⟩ := bind_eq_ok.mp h
  obtain ⟨version, hversion, h⟩ := bind_eq_ok.mp h
  obtain ⟨updateType, hupdate, h⟩ := bind_eq_ok.mp h
  obtain ⟨issuerChain, _, h⟩ := bind_eq_ok.mp h
  have hnat : (id.toNat : Int) = id := by
    have hrange := reject_eq_ok.mp hrange
    omega
  exact ⟨_, ⟨by rw [hnat]; exact int_eq_ok.mp hid, version_eq_ok hversion,
    (update_eq_ok hupdate).1, (update_eq_ok hupdate).2, payload_of_word (text_eq_ok.mp hbody),
    signedDocument_eq_ok hdocument⟩, h⟩

theorem derCrl_eq_ok {bytes crl : List UInt8} {table : String}
    (h : derCrl env bytes table = .ok crl) : crl = bytes := by
  obtain ⟨_, _, h⟩ := bind_eq_ok.mp h
  exact (pure_eq_ok.mp h).symm

/-- A certificate row without a CRL adds nothing. -/
theorem convertRootCrl_eq_ok (h : convertRootCrl env db row = .ok out) :
    ∃ crl, row.payload "crl" = some crl ∧ (crl = [] ∧ out = db ∨
      crl ≠ [] ∧ row.number "id" = some 1 ∧ add db Keys.rootcacrl (.rootcacrl crl) = .ok out) := by
  obtain ⟨crl, hcrl, h⟩ := bind_eq_ok.mp h
  refine ⟨crl, payload_of_blob hcrl, ?_⟩
  split at h
  · rename_i hempty
    exact .inl ⟨hempty, (pure_eq_ok.mp h).symm⟩
  · rename_i hne
    obtain ⟨id, hid, h⟩ := bind_eq_ok.mp h
    obtain ⟨_, hroot, h⟩ := bind_eq_ok.mp h
    obtain ⟨crl', hder, h⟩ := bind_eq_ok.mp h
    cases derCrl_eq_ok hder
    have hone : id = 1 := by simpa using reject_eq_ok.mp hroot
    exact .inr ⟨hne, int_eq_ok.mp (hone ▸ hid), mapError_eq_ok.mp h⟩

structure PckCrlOf (row : SqlRow) (rec : PckCrlRecord) : Prop where
  ca : row.canonical "ca" = some rec.ca
  crl : row.payload "pck_crl" = some rec.pckcrl

theorem convertPckCrl_eq_ok {certificates : Certificates}
    (h : convertPckCrl env certificates db row = .ok out) :
    ∃ rec, PckCrlOf row rec ∧ add db (Keys.pckcrl env rec.ca) (.pckcrl rec) = .ok out := by
  obtain ⟨ca, hca, h⟩ := bind_eq_ok.mp h
  obtain ⟨blob, hblob, h⟩ := bind_eq_ok.mp h
  obtain ⟨pckcrl, hder, h⟩ := bind_eq_ok.mp h
  obtain ⟨issuerChain, _, h⟩ := bind_eq_ok.mp h
  exact ⟨⟨ca, pckcrl, issuerChain⟩, ⟨(ca_eq_ok hca).1,
    derCrl_eq_ok hder ▸ payload_of_blob hblob⟩, h⟩

structure CrlOf (row : SqlRow) (rec : CrlRecord) : Prop where
  uri : row.word "cdp_url" = some rec.uri
  crl : row.payload "crl" = some rec.crl

theorem convertCrl_eq_ok (h : convertCrl env db row = .ok out) :
    ∃ rec, CrlOf row rec ∧ add db (Keys.crl env rec.uri) (.crl rec) = .ok out := by
  obtain ⟨uri, huri, h⟩ := bind_eq_ok.mp h
  obtain ⟨_, _, h⟩ := bind_eq_ok.mp h
  obtain ⟨blob, hblob, h⟩ := bind_eq_ok.mp h
  obtain ⟨crl, hder, h⟩ := bind_eq_ok.mp h
  exact ⟨⟨uri, crl⟩, ⟨text_eq_ok.mp huri, derCrl_eq_ok hder ▸ payload_of_blob hblob⟩, h⟩

structure RegisteredOf (row : SqlRow) (p : RegisteredPlatform) : Prop where
  name : row.platformName = (some p.qeId, some p.pceId)
  cpuSvn : row.canonical "cpu_svn" = some p.cpuSvn
  pceSvn : row.canonical "pce_svn" = some p.pceSvn
  credentials : CredentialsOf row p.encPpid p.platformManifest
  state : row.number "state" = some (p.state : Int)

theorem convertRegistered_eq_ok (h : convertRegistered env db row = .ok out) :
    ∃ p, RegisteredOf row p ∧
      add db (Keys.preg env p.qeId p.pceId p.cpuSvn p.pceSvn) (.registered p) = .ok out := by
  obtain ⟨⟨qeId, pceId⟩, hkey, h⟩ := bind_eq_ok.mp h
  obtain ⟨⟨encPpid, manifest⟩, hcred, h⟩ := bind_eq_ok.mp h
  obtain ⟨state, hstate, h⟩ := bind_eq_ok.mp h
  obtain ⟨_, hrange, h⟩ := bind_eq_ok.mp h
  obtain ⟨cpuSvn, hcpu, h⟩ := bind_eq_ok.mp h
  obtain ⟨pceSvn, hpce, h⟩ := bind_eq_ok.mp h
  obtain ⟨_, _, h⟩ := bind_eq_ok.mp h
  obtain ⟨_, _, h⟩ := bind_eq_ok.mp h
  have hnat : (state.toNat : Int) = state := by
    have hrange := reject_eq_ok.mp hrange
    omega
  exact ⟨_, ⟨(platformKey_eq_ok hkey).name,
    canonical_eq_some.mpr ⟨cpuSvn, text_eq_ok.mp hcpu, rfl⟩,
    canonical_eq_some.mpr ⟨pceSvn, text_eq_ok.mp hpce, rfl⟩, credentials_eq_ok hcred,
    by rw [hnat]; exact int_eq_ok.mp hstate⟩, h⟩

/-- A policy of the destination holds its row. -/
structure PolicyOf (row : SqlRow) (p : AppraisalPolicy) : Prop where
  id : (row.canonical "id").map toAsciiLowercase = some p.id
  fmspc : row.canonical "fmspc" = some p.fmspc
  policy : row.payload "policy" = some (asBytes p.policy)
  type : row.number "type" = some (p.policyType : Int)
  default : row.number "is_default" = some (if p.isDefault then 1 else 0)

theorem addPolicy_eq_ok {policies out : List AppraisalPolicy}
    (h : addPolicy env policies row = .ok out) :
    ∃ p, PolicyOf row p ∧ out = policies ++ [p] ∧
      ∀ q ∈ policies, (q.fmspc, q.id) ≠ (p.fmspc, p.id) := by
  obtain ⟨policy, hpolicy, h⟩ := bind_eq_ok.mp h
  obtain ⟨id, hid, h⟩ := bind_eq_ok.mp h
  obtain ⟨_, _, h⟩ := bind_eq_ok.mp h
  obtain ⟨type, htype, h⟩ := bind_eq_ok.mp h
  obtain ⟨_, hrange, h⟩ := bind_eq_ok.mp h
  obtain ⟨isDefault, hdefault, h⟩ := bind_eq_ok.mp h
  obtain ⟨_, hbit, h⟩ := bind_eq_ok.mp h
  obtain ⟨fmspc, hfmspc, h⟩ := bind_eq_ok.mp h
  obtain ⟨_, hfresh, h⟩ := bind_eq_ok.mp h
  cases pure_eq_ok.mp h
  have hnat : (type.toNat : Int) = type := by
    have hrange := reject_eq_ok.mp hrange
    omega
  have hflag : (if decide (isDefault = 1) then 1 else 0) = isDefault := by
    have hbit := reject_eq_ok.mp hbit
    by_cases hone : isDefault = 1
    · simp [hone]
    · simp only [hone, decide_false, Bool.false_eq_true, if_false]
      omega
  refine ⟨_, ⟨?_, (hexField_eq_ok hfmspc).1, payload_of_word (text_eq_ok.mp hpolicy),
    by rw [hnat]; exact int_eq_ok.mp htype, by rw [hflag]; exact int_eq_ok.mp hdefault⟩, rfl,
    fun q hq he => ?_⟩
  · rw [(hexField_eq_ok hid).1]
    rfl
  · obtain ⟨hq₁, hq₂⟩ := Prod.mk.inj he
    apply reject_eq_ok.mp hfresh
    exact List.any_eq_true.mpr ⟨q, hq, by simp [hq₁, hq₂]⟩

end Entries

section Pools

variable {row : SqlRow}

/-- The platforms under construction have distinct canonical names. -/
structure PoolsOk (pools : List PlatformPool) : Prop where
  nodup : (pools.map fun p => (p.qeId, p.pceId)).Nodup
  upper : ∀ p ∈ pools, IsUpper p.qeId ∧ IsUpper p.pceId
  pceid : ∀ p ∈ pools, NoSlash p.pceId

theorem isPool_iff {qeId pceId : String} {pool : PlatformPool} :
    isPool qeId pceId pool = true ↔ pool.qeId = qeId ∧ pool.pceId = pceId := by
  simp [isPool]

/-- Changing one pool without renaming it. -/
structure Changed (pools out : List PlatformPool) (pool pool' : PlatformPool) : Prop where
  ok : PoolsOk out
  mem : pool ∈ pools
  mem' : pool' ∈ out
  old : ∀ p ∈ out, p = pool' ∨ p ∈ pools
  new : ∀ p ∈ pools, p = pool ∨ p ∈ out

theorem withPool_eq_ok {pools out : List PlatformPool} {key : String × String} {missing : String}
    {f : PlatformPool → Except String PlatformPool}
    (hf : ∀ p p', f p = .ok p' → p'.qeId = p.qeId ∧ p'.pceId = p.pceId)
    (hok : PoolsOk pools) (h : withPool pools key missing f = .ok out) :
    ∃ pool pool', pools.find? (isPool key.1 key.2) = some pool ∧ f pool = .ok pool' ∧
      Changed pools out pool pool' := by
  obtain ⟨pool, hfind, h⟩ := bind_eq_ok.mp h
  obtain ⟨pool', hpool', h⟩ := bind_eq_ok.mp h
  cases pure_eq_ok.mp h
  have hfind := require_eq_ok.mp hfind
  have hmem := List.mem_of_find?_eq_some hfind
  obtain ⟨hkq, hkp⟩ := isPool_iff.mp (List.find?_some hfind)
  obtain ⟨hq, hp⟩ := hf pool pool' hpool'
  -- only the pool itself has its name
  have honly : ∀ p ∈ pools, isPool key.1 key.2 p = true → p = pool := by
    intro p hpm hisPool
    obtain ⟨h₁, h₂⟩ := isPool_iff.mp hisPool
    exact List.inj_on_of_nodup_map hok.nodup hpm hmem (by rw [h₁, h₂, hkq, hkp])
  have hold : ∀ p ∈ pools.map (fun p => if isPool key.1 key.2 p then pool' else p),
      p = pool' ∨ p ∈ pools := by
    intro p hpm
    obtain ⟨q, hqm, rfl⟩ := List.mem_map.mp hpm
    split
    · exact Or.inl rfl
    · exact Or.inr hqm
  have hnames : (pools.map fun p => if isPool key.1 key.2 p then pool' else p).map
      (fun p => (p.qeId, p.pceId)) = pools.map fun p => (p.qeId, p.pceId) := by
    rw [List.map_map]
    apply List.map_congr_left
    intro p hpm
    by_cases hisPool : isPool key.1 key.2 p = true
    · obtain rfl := honly p hpm hisPool
      simp [hisPool, hq, hp]
    · simp [hisPool]
  refine ⟨pool, pool', hfind, hpool', ⟨hnames ▸ hok.nodup, ?_, ?_⟩, hmem, ?_, hold, ?_⟩
  · intro p hpm
    obtain rfl | hpm := hold p hpm
    · exact hq ▸ hp ▸ hok.upper pool hmem
    · exact hok.upper p hpm
  · intro p hpm
    obtain rfl | hpm := hold p hpm
    · exact hp ▸ hok.pceid pool hmem
    · exact hok.pceid p hpm
  · exact List.mem_map.mpr ⟨pool, hmem, if_pos (isPool_iff.mpr ⟨hkq, hkp⟩)⟩
  · intro p hpm
    by_cases hisPool : isPool key.1 key.2 p = true
    · exact Or.inl (honly p hpm hisPool)
    · exact Or.inr (List.mem_map.mpr ⟨p, hpm, if_neg hisPool⟩)

theorem withPool_length {pools out : List PlatformPool} {key : String × String} {missing : String}
    {f : PlatformPool → Except String PlatformPool} (h : withPool pools key missing f = .ok out) :
    out.length = pools.length := by
  obtain ⟨pool, _, h⟩ := bind_eq_ok.mp h
  obtain ⟨pool', _, h⟩ := bind_eq_ok.mp h
  cases pure_eq_ok.mp h
  exact List.length_map _

/-- A new pool holds the row of its platform and nothing else yet. -/
structure PlatformOf (chains : List (String × String)) (pools : List PlatformPool) (row : SqlRow)
    (pool : PlatformPool) : Prop where
  name : NameOf row pool.qeId pool.pceId
  fmspc : ∃ text, row.nullableWord "fmspc" = some text ∧ pool.fmspc = toAsciiUppercase text
  ca : ∃ text, row.nullableWord "ca" = some text ∧ pool.ca = toAsciiUppercase text
  credentials : CredentialsOf row pool.encPpid pool.platformManifest
  issuerChain : pool.issuerChain = (chains.lookup pool.ca).getD ""
  certs : pool.certs = []
  rawTcbs : pool.rawTcbs = []
  fresh : ∀ p ∈ pools, (p.qeId, p.pceId) ≠ (pool.qeId, pool.pceId)

theorem addPlatform_eq_ok {chains : List (String × String)} {pools out : List PlatformPool}
    (h : addPlatform chains pools row = .ok out) :
    ∃ pool, PlatformOf chains pools row pool ∧ out = pools ++ [pool] := by
  obtain ⟨⟨qeId, pceId⟩, hkey, h⟩ := bind_eq_ok.mp h
  obtain ⟨⟨encPpid, manifest⟩, hcred, h⟩ := bind_eq_ok.mp h
  obtain ⟨fmspc, hfmspc, h⟩ := bind_eq_ok.mp h
  obtain ⟨_, _, h⟩ := bind_eq_ok.mp h
  obtain ⟨ca, hca, h⟩ := bind_eq_ok.mp h
  obtain ⟨_, hfresh, h⟩ := bind_eq_ok.mp h
  cases pure_eq_ok.mp h
  refine ⟨_, ⟨platformKey_eq_ok hkey, ⟨fmspc, nullableText_eq_ok.mp hfmspc, rfl⟩,
    nullableCa_eq_ok hca, credentials_eq_ok hcred, rfl, rfl, rfl, fun p hp he => ?_⟩, rfl⟩
  apply reject_eq_ok.mp hfresh
  exact List.any_eq_true.mpr ⟨p, hp, isPool_iff.mpr (Prod.mk.inj he)⟩

theorem PoolsOk.snoc {chains : List (String × String)} {pools : List PlatformPool}
    {pool : PlatformPool} (h : PoolsOk pools) (hpool : PlatformOf chains pools row pool) :
    PoolsOk (pools ++ [pool]) where
  nodup := by
    rw [List.map_append, List.nodup_append]
    refine ⟨h.nodup, by simp, ?_⟩
    intro a ha b hb
    obtain ⟨p, hp, rfl⟩ := List.mem_map.mp ha
    obtain rfl := List.mem_singleton.mp hb
    exact hpool.fresh p hp
  upper p hp := by
    rcases List.mem_append.mp hp with hp | hp
    · exact h.upper p hp
    · exact List.mem_singleton.mp hp ▸ ⟨hpool.name.qeUpper, hpool.name.pceUpper⟩
  pceid p hp := by
    rcases List.mem_append.mp hp with hp | hp
    · exact h.pceid p hp
    · exact List.mem_singleton.mp hp ▸ hpool.name.pceSlash

/-- A certificate of a pool holds its row. -/
structure CertOf (row : SqlRow) (pool : PlatformPool) (c : PlatformCert) : Prop where
  name : row.certName = ((some pool.qeId, some pool.pceId), some c.tcbm)
  cert : row.word "pck_cert" = some c.cert

theorem addPckCert_eq_ok {state out : List PlatformPool × List ((String × String) × String)}
    (hpools : PoolsOk state.1) (h : addPckCert state row = .ok out) :
    ∃ pool c, CertOf row pool c ∧ pool.issuerChain ≠ "" ∧ (∀ d ∈ pool.certs, d.tcbm ≠ c.tcbm) ∧
      Changed state.1 out.1 pool { pool with certs := pool.certs ++ [c] } ∧
      out.1.length = state.1.length := by
  obtain ⟨key, hkey, h⟩ := bind_eq_ok.mp h
  obtain ⟨pool, hfind, h⟩ := bind_eq_ok.mp h
  obtain ⟨tcbm, htcbm, h⟩ := bind_eq_ok.mp h
  obtain ⟨cert, hcert, h⟩ := bind_eq_ok.mp h
  obtain ⟨parsed, _, h⟩ := bind_eq_ok.mp h
  obtain ⟨pcesvn, _, h⟩ := bind_eq_ok.mp h
  obtain ⟨_, _, h⟩ := bind_eq_ok.mp h
  obtain ⟨_, hchain, h⟩ := bind_eq_ok.mp h
  obtain ⟨_, _, h⟩ := bind_eq_ok.mp h
  obtain ⟨pools, hwith, h⟩ := bind_eq_ok.mp h
  cases pure_eq_ok.mp h
  have hadd : ∀ p p' : PlatformPool, (do
      reject ((p.certs.any fun c => c.tcbm == tcbm) = true) "pck_cert: duplicate canonical TCBm"
      return { p with certs := p.certs ++ [⟨tcbm, cert⟩] } : Except String PlatformPool) = .ok p' →
      (∀ d ∈ p.certs, d.tcbm ≠ tcbm) ∧ p' = { p with certs := p.certs ++ [⟨tcbm, cert⟩] } := by
    intro p p' hp
    obtain ⟨_, hfresh, hp⟩ := bind_eq_ok.mp hp
    refine ⟨fun d hd he => ?_, (pure_eq_ok.mp hp).symm⟩
    apply reject_eq_ok.mp hfresh
    exact List.any_eq_true.mpr ⟨d, hd, by simp [he]⟩
  obtain ⟨_, pool', hfind', hpool', hchanged⟩ :=
    withPool_eq_ok (fun p p' hp => by rw [(hadd p p' hp).2]; exact ⟨rfl, rfl⟩) hpools hwith
  obtain rfl := Option.some.inj ((require_eq_ok.mp hfind).symm.trans hfind')
  obtain ⟨hfresh, rfl⟩ := hadd _ _ hpool'
  obtain ⟨hqe, hpce⟩ := isPool_iff.mp (List.find?_some hfind')
  refine ⟨pool, ⟨tcbm, cert⟩, ⟨?_, text_eq_ok.mp hcert⟩, reject_eq_ok.mp hchain, hfresh, hchanged,
    withPool_length hwith⟩
  rw [SqlRow.certName, (platformKey_eq_ok hkey).name, (hexField_eq_ok htcbm).1, hqe, hpce]

/-- A raw level of a pool, joined with a certificate. -/
structure LevelOf (row : SqlRow) (pool : PlatformPool) (raw : RawTcb) (c : PlatformCert) : Prop where
  name : row.platformName = (some pool.qeId, some pool.pceId)
  cpuSvn : row.canonical "cpu_svn" = some raw.cpuSvn
  pceSvn : row.canonical "pce_svn" = some raw.pceSvn
  canonTcbm : row.canonical "tcbm" = some raw.tcbm
  cert : c ∈ pool.certs
  tcbm : c.tcbm = raw.tcbm
  ok : Coherence.LevelOk raw
  fresh : ∀ r ∈ pool.rawTcbs, ¬ (r.cpuSvn = raw.cpuSvn ∧ r.pceSvn = raw.pceSvn)

theorem addPlatformTcb_eq_ok {state out : List PlatformPool × Database}
    (hpools : PoolsOk state.1) (h : addPlatformTcb env state row = .ok out) :
    ∃ pool raw c, LevelOf row pool raw c ∧
      add state.2 (Keys.pckcert env pool.qeId pool.pceId raw.cpuSvn raw.pceSvn)
        (.pckcert (levelRecord pool raw.cpuSvn raw.pceSvn c)) = .ok out.2 ∧
      Changed state.1 out.1 pool { pool with rawTcbs := pool.rawTcbs ++ [raw] } ∧
      out.1.length = state.1.length := by
  obtain ⟨key, hkey, h⟩ := bind_eq_ok.mp h
  obtain ⟨pool, hfind, h⟩ := bind_eq_ok.mp h
  obtain ⟨cpuSvn, hcpu, h⟩ := bind_eq_ok.mp h
  obtain ⟨pceSvn, hpce, h⟩ := bind_eq_ok.mp h
  obtain ⟨tcbm, htcbm, h⟩ := bind_eq_ok.mp h
  obtain ⟨cert, hcert, h⟩ := bind_eq_ok.mp h
  obtain ⟨_, hfresh, h⟩ := bind_eq_ok.mp h
  obtain ⟨db, hadd, h⟩ := bind_eq_ok.mp h
  obtain ⟨pools, hwith, h⟩ := bind_eq_ok.mp h
  cases pure_eq_ok.mp h
  obtain ⟨_, pool', hfind', hpool', hchanged⟩ :=
    withPool_eq_ok (fun p p' hp => by cases hp; exact ⟨rfl, rfl⟩) hpools hwith
  obtain rfl := Option.some.inj ((require_eq_ok.mp hfind).symm.trans hfind')
  cases hpool'
  obtain ⟨hcpuCanon, hcpuUpper, hcpuSlash⟩ := hexField_eq_ok hcpu
  obtain ⟨hpceCanon, hpceUpper, hpceSlash⟩ := hexField_eq_ok hpce
  obtain ⟨hqe, hid⟩ := isPool_iff.mp (List.find?_some hfind')
  have hcert := require_eq_ok.mp hcert
  refine ⟨pool, ⟨cpuSvn, pceSvn, tcbm⟩, cert, ⟨?_, hcpuCanon, hpceCanon, (hexField_eq_ok htcbm).1,
    List.mem_of_find?_eq_some hcert, by simpa using List.find?_some hcert,
    ⟨hcpuUpper, hpceUpper, hcpuSlash, hpceSlash⟩, fun r hr hsame => ?_⟩, hadd, hchanged,
    withPool_length hwith⟩
  · rw [(platformKey_eq_ok hkey).name, hqe, hid]
  · apply reject_eq_ok.mp hfresh
    exact List.any_eq_true.mpr ⟨r, hr, by simp [hsame.1, hsame.2]⟩

/-- The platform tables are read one after the other. -/
theorem convertPlatforms_eq_ok {tables : Tables} {certificates : Certificates} {db out : Database} :
    convertPlatforms env tables certificates db = .ok out ↔ ∃ chains pools state final,
      (tables "pck_certchain").foldlM (addChain certificates) [] = .ok chains ∧
      (tables "platforms").foldlM (addPlatform chains) [] = .ok pools ∧
      (tables "pck_cert").foldlM addPckCert (pools, []) = .ok state ∧
      (tables "platform_tcbs").foldlM (addPlatformTcb env) (state.1, db) = .ok final ∧
      final.1.foldlM (addPool env) final.2 = .ok out := by
  constructor
  · intro h
    obtain ⟨chains, hchains, h⟩ := bind_eq_ok.mp h
    obtain ⟨pools, hpools, h⟩ := bind_eq_ok.mp h
    obtain ⟨state, hcerts, h⟩ := bind_eq_ok.mp h
    obtain ⟨final, hlevels, h⟩ := bind_eq_ok.mp h
    exact ⟨chains, pools, state, final, hchains, hpools, hcerts, hlevels, h⟩
  · rintro ⟨chains, pools, state, final, hchains, hpools, hcerts, hlevels, h⟩
    exact bind_eq_ok.mpr ⟨chains, hchains, bind_eq_ok.mpr ⟨pools, hpools,
      bind_eq_ok.mpr ⟨state, hcerts, bind_eq_ok.mpr ⟨final, hlevels, h⟩⟩⟩⟩

end Pools

end Pccs.IntelImport
