import Pccs.Fifo

/-!
# The key space

All kinds of rows share one ordered key space. Every key starts with the plain
word of its family, no word extends another one, and behind its word a key
names the arguments it was built from. So keys of different families never meet,
and a scan over the word of a family sees the rows of that family only.
-/
namespace Pccs.KeySpace

open Text KeyValue BigEndian Fifo

/-- Who builds a key; index rows have one family for each kind. -/
inductive Family where
  | pckcert | tcb | identity | pckcrl | rootcacrl | crl | amdKds | nvidiaRim | nvidiaOcsp
  | appraisal | preg | platform
  | fifoOrder (kind : Kind) | fifoPos | fifoCount (kind : Kind)
deriving DecidableEq

/-- The word that the keys of a family start with. -/
def Family.word : Family → String
  | .pckcert => Keys.pckcertPrefix
  | .tcb => Keys.tcbPrefix
  | .identity => Keys.identityPrefix
  | .pckcrl => Keys.pckcrlPrefix
  | .rootcacrl => "rootcacrl"
  | .crl => Keys.crlPrefix
  | .amdKds => Keys.amdKdsPrefix
  | .nvidiaRim => Keys.nvidiaRimPrefix
  | .nvidiaOcsp => Keys.nvidiaOcspPrefix
  | .appraisal => Keys.appraisalPrefix
  | .preg => Keys.pregPrefix
  | .platform => Keys.platformPrefix
  | .fifoOrder kind => Keys.fifoOrder ++ kind.name
  | .fifoPos => Keys.fifoPos
  | .fifoCount kind => Keys.fifoCount ++ kind.name

/-- A call of a key builder. -/
inductive StoreKey where
  | pckcert (qeid pceid cpusvn pcesvn : String)
  | tcb (prod : String) (version : Nat) (fmspc update : String)
  | identity (name : String) (version : Nat) (update : String)
  | pckcrl (ca : String)
  | rootcacrl
  | crl (uri : String)
  | amdKds (url : String)
  | nvidiaRim (url : String)
  | nvidiaOcsp (cacheKey : String)
  | appraisal (fmspc : String)
  | preg (qeid pceid cpusvn pcesvn : String)
  | platform (qeid pceid : String)
  | fifoOrder (kind : Kind) (writtenAt : Nat) (entry : List UInt8)
  | fifoPos (entry : List UInt8)
  | fifoCount (kind : Kind)
deriving DecidableEq

namespace StoreKey

def family : StoreKey → Family
  | .pckcert _ _ _ _ => .pckcert
  | .tcb _ _ _ _ => .tcb
  | .identity _ _ _ => .identity
  | .pckcrl _ => .pckcrl
  | .rootcacrl => .rootcacrl
  | .crl _ => .crl
  | .amdKds _ => .amdKds
  | .nvidiaRim _ => .nvidiaRim
  | .nvidiaOcsp _ => .nvidiaOcsp
  | .appraisal _ => .appraisal
  | .preg _ _ _ _ => .preg
  | .platform _ _ => .platform
  | .fifoOrder kind _ _ => .fifoOrder kind
  | .fifoPos _ => .fifoPos
  | .fifoCount kind => .fifoCount kind

/-- The key that the builder returns. -/
def bytes (env : Env) : StoreKey → List UInt8
  | .pckcert qeid pceid cpusvn pcesvn => Keys.pckcert env qeid pceid cpusvn pcesvn
  | .tcb prod version fmspc update => Keys.tcb env prod version fmspc update
  | .identity name version update => Keys.identity env name version update
  | .pckcrl ca => Keys.pckcrl env ca
  | .rootcacrl => Keys.rootcacrl
  | .crl uri => Keys.crl env uri
  | .amdKds url => Keys.amdKds env url
  | .nvidiaRim url => Keys.nvidiaRim env url
  | .nvidiaOcsp cacheKey => Keys.nvidiaOcsp cacheKey
  | .appraisal fmspc => Keys.appraisal env fmspc
  | .preg qeid pceid cpusvn pcesvn => Keys.preg env qeid pceid cpusvn pcesvn
  | .platform qeid pceid => Keys.platform env qeid pceid
  | .fifoOrder kind writtenAt entry => fifoOrderKey kind writtenAt entry
  | .fifoPos entry => fifoPosKey entry
  | .fifoCount kind => fifoCountKey kind

/-- What the builder hands to the digest. -/
def digested : StoreKey → Option (List UInt8)
  | .pckcert qeid pceid cpusvn pcesvn => some (asBytes (Keys.joinLower [qeid, pceid, cpusvn, pcesvn]))
  | .tcb prod version fmspc update =>
    some (asBytes (Keys.joinLower [prod, toString version, fmspc, update]))
  | .identity name version update => some (asBytes (Keys.joinLower [name, toString version, update]))
  | .pckcrl ca => some (asBytes (Keys.joinLower [ca]))
  | .crl uri => some (asBytes (Keys.joinLower [uri]))
  | .amdKds url => some (asBytes url)
  | .nvidiaRim url => some (asBytes url)
  | .appraisal fmspc => some (asBytes (Keys.joinLower [fmspc]))
  | .preg qeid pceid cpusvn pcesvn => some (asBytes (Keys.joinLower [qeid, pceid, cpusvn, pcesvn]))
  | .platform qeid pceid => some (asBytes (Keys.joinLower [qeid, pceid]))
  | _ => none

/-- What the callers see to: only the QE id and the FMSPC may hold a separator,
and a write time has 64 bits. -/
def Validated : StoreKey → Prop
  | .pckcert _ pceid cpusvn pcesvn => NoSlash pceid ∧ NoSlash cpusvn ∧ NoSlash pcesvn
  | .tcb prod _ _ update => NoSlash prod ∧ NoSlash update
  | .identity name _ _ => NoSlash name
  | .preg _ pceid cpusvn pcesvn => NoSlash pceid ∧ NoSlash cpusvn ∧ NoSlash pcesvn
  | .platform _ pceid => NoSlash pceid
  | .fifoOrder _ writtenAt _ => writtenAt < 2 ^ 64
  | _ => True

/-- The arguments as far as a builder keeps them: most lower-case theirs. -/
def canonical : StoreKey → StoreKey
  | .pckcert qeid pceid cpusvn pcesvn => .pckcert (toAsciiLowercase qeid) (toAsciiLowercase pceid)
      (toAsciiLowercase cpusvn) (toAsciiLowercase pcesvn)
  | .tcb prod version fmspc update =>
    .tcb (toAsciiLowercase prod) version (toAsciiLowercase fmspc) (toAsciiLowercase update)
  | .identity name version update =>
    .identity (toAsciiLowercase name) version (toAsciiLowercase update)
  | .pckcrl ca => .pckcrl (toAsciiLowercase ca)
  | .crl uri => .crl (toAsciiLowercase uri)
  | .appraisal fmspc => .appraisal (toAsciiLowercase fmspc)
  | .preg qeid pceid cpusvn pcesvn => .preg (toAsciiLowercase qeid) (toAsciiLowercase pceid)
      (toAsciiLowercase cpusvn) (toAsciiLowercase pcesvn)
  | .platform qeid pceid => .platform (toAsciiLowercase qeid) (toAsciiLowercase pceid)
  | other => other

end StoreKey

section Words

def families : List Family :=
  [.pckcert, .tcb, .identity, .pckcrl, .rootcacrl, .crl, .amdKds, .nvidiaRim, .nvidiaOcsp,
    .appraisal, .preg, .platform, .fifoOrder .amdKds, .fifoOrder .nvidiaRim,
    .fifoOrder .nvidiaOcsp, .fifoPos, .fifoCount .amdKds, .fifoCount .nvidiaRim,
    .fifoCount .nvidiaOcsp]

theorem mem_families (f : Family) : f ∈ families := by
  cases f with
  | fifoOrder kind => cases kind <;> decide
  | fifoCount kind => cases kind <;> decide
  | _ => decide

/-- No word of a family extends the word of another. -/
theorem words_apart {f g : Family} (h : f ≠ g) : Keys.Apart f.word g.word := by
  have key : ∀ f ∈ families, ∀ g ∈ families, f = g ∨ Keys.Apart f.word g.word := by decide +kernel
  exact (key f (mem_families f) g (mem_families g)).resolve_left h

theorem bytes_word (env : Env) (k : StoreKey) :
    ∃ rest, k.bytes env = asBytes k.family.word ++ rest := by
  cases k with
  | rootcacrl => exact ⟨[], (List.append_nil _).symm⟩
  | fifoOrder kind writtenAt entry => exact ⟨_, rfl⟩
  | fifoPos entry => exact ⟨_, rfl⟩
  | fifoCount kind => exact ⟨[], (List.append_nil _).symm⟩
  | _ => exact ⟨_, asBytes_append _ _⟩

theorem family_eq_of_word {env : Env} {k : StoreKey} {f : Family}
    (h : asBytes f.word <+: k.bytes env) : k.family = f := by
  refine Decidable.byContradiction fun hne => ?_
  obtain ⟨rest, hrest⟩ := bytes_word env k
  obtain ⟨tail, htail⟩ := h
  have hapart := words_apart hne
  exact Keys.append_ne hapart.1 hapart.2 rest tail (by rw [← hrest, htail])

end Words

section Names

variable {env : Env}

/-- A digest that tells these two inputs apart tells the joined arguments. -/
theorem joinLower_eq_of_make {kind : String} {parts parts' : List String}
    (hinj : env.hash128Hex (asBytes (Keys.joinLower parts)) =
      env.hash128Hex (asBytes (Keys.joinLower parts')) →
      asBytes (Keys.joinLower parts) = asBytes (Keys.joinLower parts'))
    (h : Keys.make env kind parts = Keys.make env kind parts') :
    joinSlash (parts.map toAsciiLowercase) = joinSlash (parts'.map toAsciiLowercase) :=
  asBytes_inj.mp (hinj (Keys.under_inj.mp h))

theorem fifoOrderKey_inj {kind : Kind} {t t' : Nat} {e e' : List UInt8} (ht : t < 2 ^ 64)
    (ht' : t' < 2 ^ 64) (h : fifoOrderKey kind t e = fifoOrderKey kind t' e') : t = t' ∧ e = e' := by
  have h := List.append_cancel_left h
  obtain ⟨hstamp, hentry⟩ := List.append_inj h (by simp [length_toBeBytes])
  exact ⟨toBeBytes_inj (by omega) (by omega) hstamp, hentry⟩

theorem bytes_canonical (env : Env) (k : StoreKey) : k.canonical.bytes env = k.bytes env := by
  cases k <;> simp [StoreKey.canonical, StoreKey.bytes, Keys.pckcert, Keys.tcb, Keys.identity,
    Keys.pckcrl, Keys.crl, Keys.appraisal, Keys.preg, Keys.platform, Keys.make, Keys.joinLower]

theorem family_eq_of_bytes {k k' : StoreKey} (h : k.bytes env = k'.bytes env) :
    k.family = k'.family := by
  obtain ⟨rest, hrest⟩ := bytes_word env k'
  exact family_eq_of_word ⟨rest, by rw [h, hrest]⟩

theorem identity_parts {qeid pceid cpusvn pcesvn qeid' pceid' cpusvn' pcesvn' : String}
    (hk : NoSlash pceid ∧ NoSlash cpusvn ∧ NoSlash pcesvn)
    (hk' : NoSlash pceid' ∧ NoSlash cpusvn' ∧ NoSlash pcesvn')
    (h : joinSlash ([qeid, pceid, cpusvn, pcesvn].map toAsciiLowercase) =
      joinSlash ([qeid', pceid', cpusvn', pcesvn'].map toAsciiLowercase)) :
    toAsciiLowercase qeid = toAsciiLowercase qeid' ∧
      toAsciiLowercase pceid = toAsciiLowercase pceid' ∧
      toAsciiLowercase cpusvn = toAsciiLowercase cpusvn' ∧
      toAsciiLowercase pcesvn = toAsciiLowercase pcesvn' := by
  have hl : ∀ s, NoSlash s → NoSlash (toAsciiLowercase s) := fun s => (noSlash_lowercase s).mpr
  exact joinSlash_four_inj (hl _ hk.1) (hl _ hk.2.1) (hl _ hk.2.2) (hl _ hk'.1) (hl _ hk'.2.1)
    (hl _ hk'.2.2) h

/-- A key names the builder and the arguments it came from. -/
theorem canonical_eq_of_bytes {k k' : StoreKey}
    (hinj : ∀ x ∈ k.digested, ∀ y ∈ k'.digested, env.hash128Hex x = env.hash128Hex y → x = y)
    (hk : k.Validated) (hk' : k'.Validated) (h : k.bytes env = k'.bytes env) :
    k.canonical = k'.canonical := by
  have hfam := family_eq_of_bytes h
  have hl : ∀ s, NoSlash s → NoSlash (toAsciiLowercase s) := fun s => (noSlash_lowercase s).mpr
  cases k with
  | pckcert qeid pceid cpusvn pcesvn =>
    cases k' with
    | pckcert qeid' pceid' cpusvn' pcesvn' =>
      have hparts := identity_parts hk hk' (joinLower_eq_of_make (hinj _ rfl _ rfl) h)
      simp [StoreKey.canonical, hparts]
    | _ => cases hfam
  | tcb prod version fmspc update =>
    cases k' with
    | tcb prod' version' fmspc' update' =>
      have hjoin := joinLower_eq_of_make (hinj _ rfl _ rfl) h
      simp only [List.map_cons, List.map_nil, lowercase_toString] at hjoin
      obtain ⟨h₁, h₂, h₃, h₄⟩ := joinSlash_middle_inj (hl _ hk.1) (noSlash_toString _) (hl _ hk.2)
        (hl _ hk'.1) (noSlash_toString _) (hl _ hk'.2) hjoin
      simp [StoreKey.canonical, h₁, Nat.repr_injective h₂, h₃, h₄]
    | _ => cases hfam
  | identity name version update =>
    cases k' with
    | identity name' version' update' =>
      have hjoin := joinLower_eq_of_make (hinj _ rfl _ rfl) h
      simp only [List.map_cons, List.map_nil, lowercase_toString] at hjoin
      obtain ⟨h₁, h₂, h₃⟩ := joinSlash_three_inj (hl _ hk) (noSlash_toString _) (hl _ hk')
        (noSlash_toString _) hjoin
      simp [StoreKey.canonical, h₁, Nat.repr_injective h₂, h₃]
    | _ => cases hfam
  | pckcrl ca =>
    cases k' with
    | pckcrl ca' =>
      have hjoin := joinLower_eq_of_make (hinj _ rfl _ rfl) h
      exact congrArg StoreKey.pckcrl hjoin
    | _ => cases hfam
  | rootcacrl =>
    cases k' with
    | rootcacrl => rfl
    | _ => cases hfam
  | crl uri =>
    cases k' with
    | crl uri' =>
      have hjoin := joinLower_eq_of_make (hinj _ rfl _ rfl) h
      exact congrArg StoreKey.crl hjoin
    | _ => cases hfam
  | amdKds url =>
    cases k' with
    | amdKds url' =>
      have hurl := asBytes_inj.mp (hinj _ rfl _ rfl (Keys.under_inj.mp h))
      exact congrArg StoreKey.amdKds hurl
    | _ => cases hfam
  | nvidiaRim url =>
    cases k' with
    | nvidiaRim url' =>
      have hurl := asBytes_inj.mp (hinj _ rfl _ rfl (Keys.under_inj.mp h))
      exact congrArg StoreKey.nvidiaRim hurl
    | _ => cases hfam
  | nvidiaOcsp cacheKey =>
    cases k' with
    | nvidiaOcsp cacheKey' => exact congrArg StoreKey.nvidiaOcsp (Keys.under_inj.mp h)
    | _ => cases hfam
  | appraisal fmspc =>
    cases k' with
    | appraisal fmspc' =>
      have hjoin := joinLower_eq_of_make (hinj _ rfl _ rfl) h
      exact congrArg StoreKey.appraisal hjoin
    | _ => cases hfam
  | preg qeid pceid cpusvn pcesvn =>
    cases k' with
    | preg qeid' pceid' cpusvn' pcesvn' =>
      have hparts := identity_parts hk hk' (joinLower_eq_of_make (hinj _ rfl _ rfl) h)
      simp [StoreKey.canonical, hparts]
    | _ => cases hfam
  | platform qeid pceid =>
    cases k' with
    | platform qeid' pceid' =>
      have hjoin := joinLower_eq_of_make (hinj _ rfl _ rfl) h
      obtain ⟨h₁, h₂⟩ := joinSlash_two_inj (hl _ hk) (hl _ hk') hjoin
      simp [StoreKey.canonical, h₁, h₂]
    | _ => cases hfam
  | fifoOrder kind writtenAt entry =>
    cases k' with
    | fifoOrder kind' writtenAt' entry' =>
      cases hfam
      obtain ⟨rfl, rfl⟩ := fifoOrderKey_inj hk hk' h
      rfl
    | _ => cases hfam
  | fifoPos entry =>
    cases k' with
    | fifoPos entry' => exact congrArg StoreKey.fifoPos (List.append_cancel_left h)
    | _ => cases hfam
  | fifoCount kind =>
    cases k' with
    | fifoCount kind' =>
      cases hfam
      rfl
    | _ => cases hfam

/-- Two keys are equal exactly if they come from one builder and arguments that
are equal up to the case the builder folds, and a scan over the word of a family
sees exactly the rows whose keys are of that family. -/
theorem keys_separated {k k' : StoreKey}
    (hinj : ∀ x ∈ k.digested, ∀ y ∈ k'.digested, env.hash128Hex x = env.hash128Hex y → x = y)
    (hk : k.Validated) (hk' : k'.Validated) :
    (k.bytes env = k'.bytes env ↔ k.canonical = k'.canonical) ∧
    ∀ (f : Family) (db : Database),
      (∀ (key : List UInt8) (row : Row), db[key]? = some row → ∃ j : StoreKey, key = j.bytes env) →
      ∀ (key : List UInt8) (row : Row), (key, row) ∈ scanPrefix db (asBytes f.word) ↔
        db[key]? = some row ∧ ∃ j : StoreKey, j.family = f ∧ key = j.bytes env := by
  refine ⟨⟨canonical_eq_of_bytes hinj hk hk', fun h => ?_⟩, fun f db hdb key row => ?_⟩
  · rw [← bytes_canonical env k, h, bytes_canonical]
  · rw [mem_scanPrefix]
    refine and_congr_right fun hrow => ⟨fun hword => ?_, ?_⟩
    · obtain ⟨j, rfl⟩ := hdb key row hrow
      exact ⟨j, family_eq_of_word hword, rfl⟩
    · rintro ⟨j, rfl, rfl⟩
      obtain ⟨rest, hrest⟩ := bytes_word env j
      exact ⟨rest, hrest.symm⟩

/-- A separator inside the QE id does not make it another platform's key. -/
theorem keys_separated_slash : (StoreKey.platform "a/0" "0").bytes Keys.plainEnv ≠
    (StoreKey.platform "a" "0").bytes Keys.plainEnv := by
  intro h
  have hinj : ∀ x ∈ (StoreKey.platform "a/0" "0").digested,
      ∀ y ∈ (StoreKey.platform "a" "0").digested,
      Keys.plainEnv.hash128Hex x = Keys.plainEnv.hash128Hex y → x = y :=
    fun _ _ _ _ he => Keys.plainEnv_injective he
  have hslash : NoSlash "0" := by decide
  exact absurd ((keys_separated hinj hslash hslash).1.mp h) (by decide)

end Names

end Pccs.KeySpace
