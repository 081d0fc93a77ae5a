import Pccs.Encoding
import Pccs.Records

/-!
# Row keys

A key is a plain prefix followed by the digest of the lower-cased identity. The
prefixes separate the kinds for every digest; inside one kind an injective
digest makes the key a name of the identity up to letter case, as long as only
the first part of the identity may contain the separator.
-/
namespace Pccs.Keys

open Text

def pckcertPrefix : String := "pckcert/"
def tcbPrefix : String := "tcb/"
def identityPrefix : String := "identity/"
def pckcrlPrefix : String := "pckcrl/"
def crlPrefix : String := "crl/"
def amdKdsPrefix : String := "amd-kds/"
def nvidiaRimPrefix : String := "nvidia-rim/"
def nvidiaOcspPrefix : String := "nvidia-ocsp/"
def fifoOrder : String := "fifo/"
def fifoPos : String := "fifo-pos/"
def fifoCount : String := "fifo-count/"
def appraisalPrefix : String := "appraisal/"
def pregPrefix : String := "preg/"
def platformPrefix : String := "platform/"

/-- The key under a prefix, in bytes. -/
def under (kind rest : String) : List UInt8 := asBytes (kind ++ rest)

def joinLower (parts : List String) : String := joinSlash (parts.map toAsciiLowercase)

section Builders

variable (env : Env)

def make (kind : String) (parts : List String) : List UInt8 :=
  under kind (env.hash128Hex (asBytes (joinLower parts)))

def pckcert (qeid pceid cpusvn pcesvn : String) : List UInt8 :=
  make env pckcertPrefix [qeid, pceid, cpusvn, pcesvn]

def tcb (prod : String) (version : Nat) (fmspc update : String) : List UInt8 :=
  make env tcbPrefix [prod, toString version, fmspc, update]

def identity (name : String) (version : Nat) (update : String) : List UInt8 :=
  make env identityPrefix [name, toString version, update]

def pckcrl (ca : String) : List UInt8 := make env pckcrlPrefix [ca]

def rootcacrl : List UInt8 := asBytes "rootcacrl"

def crl (uri : String) : List UInt8 := make env crlPrefix [uri]

def amdKds (url : String) : List UInt8 := under amdKdsPrefix (env.hash128Hex (asBytes url))

def nvidiaRim (url : String) : List UInt8 := under nvidiaRimPrefix (env.hash128Hex (asBytes url))

def nvidiaOcsp (cacheKey : String) : List UInt8 := under nvidiaOcspPrefix cacheKey

def appraisal (fmspc : String) : List UInt8 := make env appraisalPrefix [fmspc]

def preg (qeid pceid cpusvn pcesvn : String) : List UInt8 :=
  make env pregPrefix [qeid, pceid, cpusvn, pcesvn]

def platform (qeid pceid : String) : List UInt8 := make env platformPrefix [qeid, pceid]

end Builders

def prodName (prodType : Nat) : String := if prodType = 1 then "tdx" else "sgx"

def identityName (enclaveId : Nat) : String :=
  if enclaveId = 2 then "qve" else if enclaveId = 3 then "tdqe" else "qe"

section Separation

/-- Neither word starts the other, so no extension of one extends the other. -/
theorem append_ne {α : Type} {p q : List α} (hpq : ¬ p <+: q) (hqp : ¬ q <+: p) (s t : List α) :
    p ++ s ≠ q ++ t := by
  intro h
  rcases List.prefix_or_prefix_of_prefix (List.prefix_append p s) (h ▸ List.prefix_append q t)
    with hp | hq
  · exact hpq hp
  · exact hqp hq

/-- Two kinds neither of which extends the other never share a key. -/
def Apart (p q : String) : Prop := ¬ asBytes p <+: asBytes q ∧ ¬ asBytes q <+: asBytes p

instance (p q : String) : Decidable (Apart p q) := inferInstanceAs (Decidable (_ ∧ _))

theorem under_ne {p q : String} (h : Apart p q) (s t : String) : under p s ≠ under q t := by
  simp only [under, asBytes_append]
  exact append_ne h.1 h.2 _ _

theorem under_inj {p s t : String} : under p s = under p t ↔ s = t := by
  simp only [under, asBytes_append, List.append_cancel_left_eq, asBytes_inj]

variable {env : Env}

/-- An injective digest reads the canonical identity back. -/
theorem make_inj (h : Function.Injective env.hash128Hex) {kind : String} {parts parts' : List String} :
    make env kind parts = make env kind parts' ↔ joinLower parts = joinLower parts' := by
  constructor
  · intro he
    exact asBytes_inj.mp (h (under_inj.mp he))
  · intro he
    unfold make
    rw [he]

/-- A process whose key digest is the plain hex text of the identity. -/
def plainEnv : Env where
  hash128Hex := Encoding.hexEncode
  fromSlice _ := none
  rawJson := Json.rawJson
  urlSafeNoPad _ := none
  sha384Hex _ := ""
  sha256Hex _ := ""
  isDerCrl _ := false

/-- A process that reads the compact texts of some documents. -/
def readerEnv (documents : List Json.Value) : Env :=
  { plainEnv with fromSlice := fun body => documents.find? fun v => asBytes (Json.rawJson v) == body }

/-- The first document is read whatever the others are. -/
theorem readerEnv_first (v : Json.Value) (rest : List Json.Value) :
    (readerEnv (v :: rest)).fromSlice (asBytes (Json.rawJson v)) = some v := by
  simp [readerEnv]

theorem readerEnv_second {v w : Json.Value} (h : Json.rawJson v ≠ Json.rawJson w)
    (rest : List Json.Value) :
    (readerEnv (v :: w :: rest)).fromSlice (asBytes (Json.rawJson w)) = some w := by
  have hne : ¬ asBytes (Json.rawJson v) = asBytes (Json.rawJson w) := fun he => h (asBytes_inj.mp he)
  simp [readerEnv, hne]

theorem plainEnv_injective : Function.Injective plainEnv.hash128Hex :=
  Encoding.hexEncode_injective

theorem pckcert_congr {qeid pceid cpusvn pcesvn qeid' pceid' cpusvn' pcesvn' : String}
    (h₁ : toAsciiLowercase qeid = toAsciiLowercase qeid')
    (h₂ : toAsciiLowercase pceid = toAsciiLowercase pceid')
    (h₃ : toAsciiLowercase cpusvn = toAsciiLowercase cpusvn')
    (h₄ : toAsciiLowercase pcesvn = toAsciiLowercase pcesvn') :
    pckcert env qeid pceid cpusvn pcesvn = pckcert env qeid' pceid' cpusvn' pcesvn' := by
  simp only [pckcert, make, joinLower, List.map_cons, h₁, h₂, h₃, h₄]

theorem platform_congr {qeid pceid qeid' pceid' : String}
    (h₁ : toAsciiLowercase qeid = toAsciiLowercase qeid')
    (h₂ : toAsciiLowercase pceid = toAsciiLowercase pceid') :
    platform env qeid pceid = platform env qeid' pceid' := by
  simp only [platform, make, joinLower, List.map_cons, h₁, h₂]

/-- A GET key names its identity: only the QE id may hold a separator. -/
theorem pckcert_inj (h : Function.Injective env.hash128Hex)
    {qeid pceid cpusvn pcesvn qeid' pceid' cpusvn' pcesvn' : String}
    (hp : NoSlash pceid) (hc : NoSlash cpusvn) (hs : NoSlash pcesvn)
    (hp' : NoSlash pceid') (hc' : NoSlash cpusvn') (hs' : NoSlash pcesvn')
    (he : pckcert env qeid pceid cpusvn pcesvn = pckcert env qeid' pceid' cpusvn' pcesvn') :
    toAsciiLowercase qeid = toAsciiLowercase qeid' ∧
      toAsciiLowercase pceid = toAsciiLowercase pceid' ∧
      toAsciiLowercase cpusvn = toAsciiLowercase cpusvn' ∧
      toAsciiLowercase pcesvn = toAsciiLowercase pcesvn' :=
  joinSlash_four_inj ((noSlash_lowercase _).mpr hp) ((noSlash_lowercase _).mpr hc)
    ((noSlash_lowercase _).mpr hs) ((noSlash_lowercase _).mpr hp') ((noSlash_lowercase _).mpr hc')
    ((noSlash_lowercase _).mpr hs') ((make_inj h).mp he)

theorem platform_inj (h : Function.Injective env.hash128Hex) {qeid pceid qeid' pceid' : String}
    (hp : NoSlash pceid) (hp' : NoSlash pceid')
    (he : platform env qeid pceid = platform env qeid' pceid') :
    toAsciiLowercase qeid = toAsciiLowercase qeid' ∧
      toAsciiLowercase pceid = toAsciiLowercase pceid' :=
  joinSlash_two_inj ((noSlash_lowercase _).mpr hp) ((noSlash_lowercase _).mpr hp')
    ((make_inj h).mp he)

theorem pckcert_ne_platform (qeid pceid cpusvn pcesvn qeid' pceid' : String) :
    pckcert env qeid pceid cpusvn pcesvn ≠ platform env qeid' pceid' :=
  under_ne (by decide) _ _

end Separation

end Pccs.Keys
