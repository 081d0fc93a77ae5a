import Pccs.Store
import Pccs.Validate

/-!
# Appraisal policies

The policies of an FMSPC are one row. A policy is named by the digest of its
text; putting it again replaces it, and putting one as default clears the flag
of all others. What the list holds is told by the history of the puts alone.
-/
namespace Pccs.Appraisal

open Text Encoding Json Fallible KeyValue PccsError Validate

section Validation

structure AppraisalPolicyReg where
  isDefault : Bool
  fmspc : String
  policy : String
  policyType : Nat
deriving DecidableEq

def classIdSgx : String := "3123ec35-8d38-4ea5-87a5-d6c48b567570"
def classIdTdx10 : String := "9eec018b-7481-4b1c-8e1a-9f7c0c8c777f"
def classIdTdx15 : String := "f708b97f-0fb2-4e6b-8b03-8a5bcd1221d3"
def classIdTdqe : String := "3769258c-75e6-4bc7-8d72-d2b0e224cad2"

/-- `split('.').nth(1)`, empty without a second segment. -/
def secondSegment (policy : String) : List Char :=
  ((policy.toList.dropWhile (· ≠ '.')).drop 1).takeWhile (· ≠ '.')

/-- Trailing padding is dropped before decoding. -/
def base64urlDecode (env : Env) (segment : List Char) : Option (List UInt8) :=
  env.urlSafeNoPad ((segment.reverse.dropWhile (· = '=')).reverse.flatMap String.utf8EncodeChar)

/-- The first class id that is not the TDQE one decides. -/
def policyTypeOf : List Value → Except PccsError Nat
  | [] => .error (rejected "Failed to get a valid policy type.")
  | policy :: rest => do
    let classId ← require (((policy.get "environment").bind (Value.get · "class_id")).bind
      Value.asStr) (rejected "Invalid policy data.")
    let classId := toAsciiLowercase classId
    if classId = classIdSgx then return 0
    else if classId = classIdTdx10 then return 1
    else if classId = classIdTdx15 then return 2
    else if classId = classIdTdqe then policyTypeOf rest
    else .error (rejected "Unknown policy class_id.")

def policyTypeByClassId (env : Env) (payload : Value) : Except PccsError Nat := do
  let raw ← require ((payload.get "policy_payload").bind Value.asStr)
    (rejected "Invalid policy data.")
  let policyPayload ← require (env.fromSlice (asBytes raw))
    (rejected "Failed to parse appraisal policy payload")
  let array ← require ((policyPayload.get "policy_array").bind Value.asArray)
    (rejected "Policy array not found.")
  policyTypeOf array

/-- A policy looks like a JWS; its payload says what it is for. -/
def appraisalPolicy (env : Env) (body : Value) : Except PccsError AppraisalPolicyReg := do
  reject (body.isObject = false) (rejected "Failed to validate the appraisal policy file.")
  let isDefault ← require ((body.get "is_default").bind Value.asBool)
    (rejected "is_default is required")
  let fmspc ← reqStr body "fmspc"
  reject (isHex fmspc 12 = false) (rejected "fmspc must be 12 hex characters")
  let policy ← reqStr body "policy"
  reject (policy = "") (rejected "policy must not be empty")
  reject ('.' ∉ policy.toList) (rejected "Failed to validate the policy field.")
  let decoded ← require (base64urlDecode env (secondSegment policy)) (rejected "Invalid policy payload.")
  let payload ← require (env.fromSlice decoded) (rejected "Invalid policy payload.")
  let policyType ← policyTypeByClassId env payload
  return ⟨isDefault, toAsciiUppercase fmspc, policy, policyType⟩

end Validation

section Operations

variable (env : Env) (db : Database)

def rowAppraisal : Row → Option (List AppraisalPolicy)
  | .appraisal policies => some policies
  | _ => none

def storedList (fmspc : String) : Option (List AppraisalPolicy) :=
  db[Keys.appraisal env fmspc]?.bind rowAppraisal

/-- Replace the policy with the same id, or append. -/
def upsertById (entry : AppraisalPolicy) : List AppraisalPolicy → List AppraisalPolicy
  | [] => [entry]
  | p :: rest => if p.id = entry.id then entry :: rest else p :: upsertById entry rest

def clearDefaults (policies : List AppraisalPolicy) : List AppraisalPolicy :=
  policies.map fun p => { p with isDefault := false }

def addPolicy (policies : List AppraisalPolicy) (entry : AppraisalPolicy) : List AppraisalPolicy :=
  upsertById entry (if entry.isDefault then clearDefaults policies else policies)

def listWrite (entry : AppraisalPolicy) : Write UInt8 Row :=
  .put (Keys.appraisal env entry.fmspc)
    (.appraisal (addPolicy ((storedList env db entry.fmspc).getD []) entry))

def putAppraisalPolicy (body : Value) : Except PccsError (String × WriteBatch) := do
  let reg ← appraisalPolicy env body
  let id := env.sha384Hex reg.policy
  return (id, [listWrite env db ⟨id, reg.fmspc, reg.isDefault, reg.policy, reg.policyType⟩])

/-- The seed file skips the payload checks. -/
def upsertAppraisalPolicyRaw (fmspc policy : String) (isDefault : Bool) : Write UInt8 Row :=
  listWrite env db ⟨env.sha384Hex policy, toAsciiUppercase fmspc, isDefault, policy, 0⟩

def getDefaultPolicies (fmspc : String) : Except PccsError String := do
  let policies ← require (storedList env db fmspc) noCacheData
  let defaults := (policies.filter AppraisalPolicy.isDefault).map AppraisalPolicy.policy
  reject (defaults = []) noCacheData
  return ",".intercalate defaults

end Operations

section Histories

/-- A policy, the FMSPC it is put for, and whether it is to be the default. -/
structure Put where
  fmspc : String
  policy : String
  isDefault : Bool
deriving DecidableEq

/-- What a body asks for, by its own members. -/
def Put.ofBody (body : Value) : Option Put := do
  let fmspc ← (body.get "fmspc").bind Value.asStr
  let policy ← (body.get "policy").bind Value.asStr
  let isDefault ← (body.get "is_default").bind Value.asBool
  return ⟨fmspc, policy, isDefault⟩

/-- A request counts once it is answered with success. -/
def counted (body : Value) : Except PccsError String → List Put
  | .ok _ => (Put.ofBody body).toList
  | .error _ => []

/-- Puts and seed upserts one after the other, as the lock orders them; those
answered with success are remembered newest first. -/
inductive Run (env : Env) : List Put → Database → Prop
  | start : Run env [] ∅
  | put {puts : List Put} {db : Database} (body : Value) (h : Run env puts db) :
      Run env (counted body (commit db (putAppraisalPolicy env db body)).1 ++ puts)
        (commit db (putAppraisalPolicy env db body)).2
  | seed {puts : List Put} {db : Database} (fmspc policy : String) (isDefault : Bool)
      (h : Run env puts db) :
      Run env (⟨fmspc, policy, isDefault⟩ :: puts)
        (write db [upsertAppraisalPolicyRaw env db fmspc policy isDefault])

/-- The puts for an FMSPC, in any letter case. -/
def putsFor (fmspc : String) (puts : List Put) : List Put :=
  puts.filter fun q => toAsciiLowercase q.fmspc = toAsciiLowercase fmspc

/-- The flag of a policy after the last put that touched it: its own, or the put
of another one as default. -/
def flagOf (policy : String) : List Put → Bool
  | [] => false
  | q :: older =>
    if q.policy = policy then q.isDefault
    else if q.isDefault then false
    else flagOf policy older

/-- A list that tells the puts of its FMSPC. -/
structure Tells (env : Env) (puts : List Put) (policies : List AppraisalPolicy) : Prop where
  ids : ∀ p ∈ policies, p.id = env.sha384Hex p.policy
  once : (policies.map AppraisalPolicy.policy).Nodup
  texts : ∀ text, text ∈ policies.map AppraisalPolicy.policy ↔ text ∈ puts.map Put.policy
  flags : ∀ p ∈ policies, p.isDefault = flagOf p.policy puts

variable {env : Env} {puts : List Put} {policies : List AppraisalPolicy} {entry : AppraisalPolicy}

theorem mem_upsertById_or {p : AppraisalPolicy} (h : p ∈ upsertById entry policies) :
    p = entry ∨ p ∈ policies := by
  induction policies with
  | nil => exact .inl (List.mem_singleton.mp h)
  | cons q rest ih =>
    unfold upsertById at h
    split at h
    · exact (List.mem_cons.mp h).imp_right (List.mem_cons_of_mem q)
    · obtain rfl | h := List.mem_cons.mp h
      · exact .inr List.mem_cons_self
      · exact (ih h).imp_right (List.mem_cons_of_mem q)

theorem mem_upsertById (honce : (policies.map AppraisalPolicy.policy).Nodup)
    (h : ∀ p ∈ policies, p.id = entry.id ↔ p.policy = entry.policy) {p : AppraisalPolicy} :
    p ∈ upsertById entry policies ↔ p = entry ∨ p ∈ policies ∧ p.policy ≠ entry.policy := by
  induction policies with
  | nil => simp [upsertById]
  | cons q rest ih =>
    obtain ⟨hq, hrest⟩ := List.forall_mem_cons.mp h
    rw [List.map_cons, List.nodup_cons] at honce
    unfold upsertById
    by_cases hid : q.id = entry.id
    · have hpol := hq.mp hid
      have hnot : ∀ x ∈ rest, x.policy ≠ entry.policy := fun x hx he =>
        honce.1 (List.mem_map.mpr ⟨x, hx, he.trans hpol.symm⟩)
      rw [if_pos hid, List.mem_cons, List.mem_cons]
      constructor
      · rintro (rfl | hp)
        · exact .inl rfl
        · exact .inr ⟨.inr hp, hnot p hp⟩
      · rintro (rfl | ⟨rfl | hp, hne⟩)
        · exact .inl rfl
        · exact absurd hpol hne
        · exact .inr hp
    · have hpol : q.policy ≠ entry.policy := fun he => hid (hq.mpr he)
      rw [if_neg hid, List.mem_cons, ih honce.2 hrest, List.mem_cons]
      constructor
      · rintro (rfl | rfl | hp)
        · exact .inr ⟨.inl rfl, hpol⟩
        · exact .inl rfl
        · exact .inr ⟨.inr hp.1, hp.2⟩
      · rintro (rfl | ⟨rfl | hp, hne⟩)
        · exact .inr (.inl rfl)
        · exact .inl rfl
        · exact .inr (.inr ⟨hp, hne⟩)

theorem once_upsertById (honce : (policies.map AppraisalPolicy.policy).Nodup)
    (h : ∀ p ∈ policies, p.id = entry.id ↔ p.policy = entry.policy) :
    ((upsertById entry policies).map AppraisalPolicy.policy).Nodup := by
  induction policies with
  | nil => simp [upsertById]
  | cons q rest ih =>
    obtain ⟨hq, hrest⟩ := List.forall_mem_cons.mp h
    have htail := (List.nodup_cons.mp honce).2
    unfold upsertById
    by_cases hid : q.id = entry.id
    · rw [if_pos hid, List.map_cons, ← hq.mp hid]
      exact honce
    · rw [if_neg hid, List.map_cons, List.nodup_cons]
      refine ⟨fun hmem => ?_, ih htail hrest⟩
      obtain ⟨p, hp, hpq⟩ := List.mem_map.mp hmem
      obtain rfl | ⟨hp, _⟩ := (mem_upsertById htail hrest).mp hp
      · exact hid (hq.mpr hpq.symm)
      · exact (List.nodup_cons.mp honce).1 (List.mem_map.mpr ⟨p, hp, hpq⟩)

/-- One put, whether or not it clears the flags of the others first. -/
theorem tells_upsert (hsha : Function.Injective env.sha384Hex) {cleared : List AppraisalPolicy}
    (hid : entry.id = env.sha384Hex entry.policy)
    (hids : ∀ p ∈ cleared, p.id = env.sha384Hex p.policy)
    (honce : (cleared.map AppraisalPolicy.policy).Nodup)
    (htexts : ∀ text, text ∈ cleared.map AppraisalPolicy.policy ↔ text ∈ puts.map Put.policy)
    {q : Put} (hq : q.policy = entry.policy) (hd : q.isDefault = entry.isDefault)
    (hflags : ∀ p ∈ cleared, p.policy ≠ entry.policy → p.isDefault = flagOf p.policy (q :: puts)) :
    Tells env (q :: puts) (upsertById entry cleared) := by
  have hname : ∀ p ∈ cleared, p.id = entry.id ↔ p.policy = entry.policy := fun p hp => by
    rw [hids p hp, hid]
    exact ⟨fun he => hsha he, fun he => by rw [he]⟩
  have hmem := fun p => mem_upsertById honce hname (p := p)
  refine ⟨?_, once_upsertById honce hname, ?_, ?_⟩
  · intro p hp
    obtain rfl | ⟨hp, _⟩ := (hmem p).mp hp
    · exact hid
    · exact hids p hp
  · intro text
    simp only [List.map_cons, List.mem_cons, hq, ← htexts text, List.mem_map, hmem]
    constructor
    · rintro ⟨p, rfl | ⟨hp, _⟩, rfl⟩
      · exact .inl rfl
      · exact .inr ⟨p, hp, rfl⟩
    · rintro (rfl | ⟨p, hp, rfl⟩)
      · exact ⟨entry, .inl rfl, rfl⟩
      · by_cases he : p.policy = entry.policy
        · exact ⟨entry, .inl rfl, he.symm⟩
        · exact ⟨p, .inr ⟨hp, he⟩, rfl⟩
  · intro p hp
    obtain rfl | ⟨hp, hne⟩ := (hmem p).mp hp
    · rw [flagOf, if_pos hq, hd]
    · exact hflags p hp hne

theorem tells_addPolicy (hsha : Function.Injective env.sha384Hex) (h : Tells env puts policies)
    (hid : entry.id = env.sha384Hex entry.policy) {q : Put} (hq : q.policy = entry.policy)
    (hd : q.isDefault = entry.isDefault) : Tells env (q :: puts) (addPolicy policies entry) := by
  unfold addPolicy
  split
  · rename_i hdef
    have htext : (clearDefaults policies).map AppraisalPolicy.policy =
        policies.map AppraisalPolicy.policy := by simp [clearDefaults, Function.comp_def]
    refine tells_upsert hsha hid ?_ (htext ▸ h.once) (fun text => htext ▸ h.texts text) hq hd ?_
    · intro p hp
      obtain ⟨x, hx, rfl⟩ := List.mem_map.mp hp
      exact h.ids x hx
    · intro p hp hne
      obtain ⟨x, hx, rfl⟩ := List.mem_map.mp hp
      rw [flagOf, hq, if_neg (Ne.symm hne), hd, if_pos hdef]
  · rename_i hdef
    refine tells_upsert hsha hid h.ids h.once h.texts hq hd fun p hp hne => ?_
    rw [flagOf, hq, if_neg (Ne.symm hne), hd, if_neg hdef]
    exact h.flags p hp

/-- The list of an FMSPC, empty if it has none. -/
def policiesOf (env : Env) (db : Database) (fmspc : String) : List AppraisalPolicy :=
  (storedList env db fmspc).getD []

theorem policiesOf_write (hhash : Function.Injective env.hash128Hex) (db : Database)
    (entry : AppraisalPolicy) (fmspc : String) :
    policiesOf env (write db [listWrite env db entry]) fmspc =
      if toAsciiLowercase entry.fmspc = toAsciiLowercase fmspc then
        addPolicy (policiesOf env db fmspc) entry
      else policiesOf env db fmspc := by
  have hkey : Keys.appraisal env entry.fmspc = Keys.appraisal env fmspc ↔
      toAsciiLowercase entry.fmspc = toAsciiLowercase fmspc := Keys.make_inj hhash
  unfold policiesOf storedList listWrite
  rw [write_cons, write_nil, get_apply]
  by_cases h : toAsciiLowercase entry.fmspc = toAsciiLowercase fmspc
  · rw [if_pos h, Write.key, if_pos (hkey.mpr h)]
    simp only [Write.effect, Option.bind_some, rowAppraisal, Option.getD_some, storedList,
      hkey.mpr h]
  · rw [if_neg h, Write.key, if_neg (mt hkey.mp h)]

theorem putsFor_cons (fmspc : String) (q : Put) (puts : List Put) :
    putsFor fmspc (q :: puts) =
      if toAsciiLowercase q.fmspc = toAsciiLowercase fmspc then q :: putsFor fmspc puts
      else putsFor fmspc puts := by
  simp [putsFor, List.filter_cons]

theorem tells_write (hsha : Function.Injective env.sha384Hex)
    (hhash : Function.Injective env.hash128Hex) {db : Database} {fmspc : String} {q : Put}
    (h : Tells env (putsFor fmspc puts) (policiesOf env db fmspc))
    (hid : entry.id = env.sha384Hex entry.policy)
    (hfmspc : toAsciiLowercase q.fmspc = toAsciiLowercase entry.fmspc)
    (hq : q.policy = entry.policy) (hd : q.isDefault = entry.isDefault) :
    Tells env (putsFor fmspc (q :: puts))
      (policiesOf env (write db [listWrite env db entry]) fmspc) := by
  rw [policiesOf_write hhash, putsFor_cons, hfmspc]
  split
  · exact tells_addPolicy hsha h hid hq hd
  · exact h

/-- An accepted body has the members its policy is stored with. -/
theorem ofBody_of_appraisalPolicy {body : Value} {reg : AppraisalPolicyReg}
    (h : appraisalPolicy env body = .ok reg) :
    ∃ fmspc, Put.ofBody body = some ⟨fmspc, reg.policy, reg.isDefault⟩ ∧
      reg.fmspc = toAsciiUppercase fmspc := by
  obtain ⟨_, -, h⟩ := bind_eq_ok.mp h
  obtain ⟨isDefault, hdefault, h⟩ := bind_eq_ok.mp h
  obtain ⟨fmspc, hfmspc, h⟩ := bind_eq_ok.mp h
  obtain ⟨_, -, h⟩ := bind_eq_ok.mp h
  obtain ⟨policy, hpolicy, h⟩ := bind_eq_ok.mp h
  obtain ⟨_, -, h⟩ := bind_eq_ok.mp h
  obtain ⟨_, -, h⟩ := bind_eq_ok.mp h
  obtain ⟨decoded, -, h⟩ := bind_eq_ok.mp h
  obtain ⟨payload, -, h⟩ := bind_eq_ok.mp h
  obtain ⟨policyType, -, h⟩ := bind_eq_ok.mp h
  cases pure_eq_ok.mp h
  have hdefault := require_eq_ok.mp hdefault
  have hfmspc := reqStr_eq_ok hfmspc
  have hpolicy := reqStr_eq_ok hpolicy
  exact ⟨fmspc, by simp [Put.ofBody, hdefault, hfmspc, hpolicy, Value.asStr], rfl⟩

theorem putAppraisalPolicy_of_reg {body : Value} {reg : AppraisalPolicyReg}
    (h : appraisalPolicy env body = .ok reg) (db : Database) :
    putAppraisalPolicy env db body = .ok (env.sha384Hex reg.policy,
      [listWrite env db ⟨env.sha384Hex reg.policy, reg.fmspc, reg.isDefault, reg.policy,
        reg.policyType⟩]) :=
  bind_eq_ok.mpr ⟨reg, h, rfl⟩

theorem putAppraisalPolicy_of_error {body : Value} {e : PccsError}
    (h : appraisalPolicy env body = .error e) (db : Database) :
    putAppraisalPolicy env db body = .error e := by
  simp [putAppraisalPolicy, h, bind, Except.bind]

/-- The list of every FMSPC tells its puts, after every run. -/
theorem tells_of_run (hsha : Function.Injective env.sha384Hex)
    (hhash : Function.Injective env.hash128Hex) {db : Database} (hrun : Run env puts db)
    (fmspc : String) : Tells env (putsFor fmspc puts) (policiesOf env db fmspc) := by
  induction hrun with
  | start =>
    have hnone : policiesOf env ∅ fmspc = [] := by simp [policiesOf, storedList]
    rw [hnone]
    exact ⟨by simp, by simp, by simp [putsFor], by simp⟩
  | @put puts db body _ ih =>
    cases hreg : appraisalPolicy env body with
    | error e => simpa [putAppraisalPolicy_of_error hreg, commit, counted] using ih
    | ok reg =>
      obtain ⟨f, hbody, hf⟩ := ofBody_of_appraisalPolicy hreg
      rw [putAppraisalPolicy_of_reg hreg]
      simp only [commit, counted, hbody, Option.toList_some, List.singleton_append]
      exact tells_write hsha hhash ih rfl (by rw [hf, toAsciiLowercase_uppercase]) rfl rfl
  | seed f policy isDefault _ ih =>
    exact tells_write hsha hhash ih rfl (toAsciiLowercase_uppercase f).symm rfl rfl

/-- A policy has the flag exactly if it was put as default and nothing since has
touched it. -/
theorem flagOf_eq_true {text : String} :
    flagOf text puts = true ↔ ∃ newer q older, puts = newer ++ q :: older ∧ q.policy = text ∧
      q.isDefault = true ∧ ∀ x ∈ newer, x.policy ≠ text ∧ x.isDefault = false := by
  induction puts with
  | nil => simp [flagOf]
  | cons q puts ih =>
    rw [flagOf]
    constructor
    · intro h
      split at h
      · rename_i hq
        exact ⟨[], q, puts, rfl, hq, h, by simp⟩
      · rename_i hq
        split at h
        · cases h
        · rename_i hd
          obtain ⟨newer, x, older, rfl, hx, hdx, hnewer⟩ := ih.mp h
          refine ⟨q :: newer, x, older, rfl, hx, hdx, List.forall_mem_cons.mpr ⟨⟨hq, ?_⟩, hnewer⟩⟩
          simpa using hd
    · rintro ⟨newer, x, older, hsplit, hx, hdx, hnewer⟩
      cases newer with
      | nil =>
        cases hsplit
        rw [if_pos hx, hdx]
      | cons y newer =>
        obtain ⟨rfl, htail⟩ := List.cons.inj hsplit
        obtain ⟨⟨hy, hdy⟩, hnewer⟩ := List.forall_mem_cons.mp hnewer
        rw [if_neg hy, hdy]
        exact ih.mpr ⟨newer, x, older, htail, hx, hdx, hnewer⟩

theorem flagOf_unique {text text' : String} (h : flagOf text puts = true)
    (h' : flagOf text' puts = true) : text = text' := by
  induction puts with
  | nil => cases h
  | cons q puts ih =>
    rw [flagOf] at h h'
    split at h
    · rename_i hq
      split at h'
      · rename_i hq'
        exact hq.symm.trans hq'
      · cases h'
    · split at h
      · cases h
      · rename_i hd
        split at h'
        · exact absurd h' hd
        · exact ih h h'

/-- A flagged policy is the only default of the list. -/
theorem defaults_of_flag (h : Tells env puts policies) {text : String}
    (hflag : flagOf text puts = true) :
    (policies.filter AppraisalPolicy.isDefault).map AppraisalPolicy.policy = [text] := by
  obtain ⟨newer, q, older, hsplit, hq, _, _⟩ := flagOf_eq_true.mp hflag
  have htext : text ∈ policies.map AppraisalPolicy.policy :=
    (h.texts text).mpr (List.mem_map.mpr ⟨q, by simp [hsplit], hq⟩)
  have hall : ∀ t ∈ (policies.filter AppraisalPolicy.isDefault).map AppraisalPolicy.policy,
      t = text := by
    intro t ht
    obtain ⟨p, hp, rfl⟩ := List.mem_map.mp ht
    obtain ⟨hp, hd⟩ := List.mem_filter.mp hp
    exact flagOf_unique ((h.flags p hp).symm.trans hd) hflag
  have hmem : text ∈ (policies.filter AppraisalPolicy.isDefault).map AppraisalPolicy.policy := by
    obtain ⟨p, hp, rfl⟩ := List.mem_map.mp htext
    exact List.mem_map.mpr ⟨p, List.mem_filter.mpr ⟨hp, (h.flags p hp).trans hflag⟩, rfl⟩
  have hnodup : ((policies.filter AppraisalPolicy.isDefault).map AppraisalPolicy.policy).Nodup :=
    List.Pairwise.sublist (List.filter_sublist.map _) h.once
  cases hds : (policies.filter AppraisalPolicy.isDefault).map AppraisalPolicy.policy with
  | nil =>
    rw [hds] at hmem
    cases hmem
  | cons t rest =>
    rw [hds] at hall hnodup
    obtain ⟨rfl, hrest⟩ := List.forall_mem_cons.mp hall
    cases rest with
    | nil => rfl
    | cons t' rest => exact absurd (hrest t' (by simp)) (by simp at hnodup; exact Ne.symm hnodup.1.1)

theorem no_defaults (h : Tells env puts policies) (hno : ∀ text, flagOf text puts ≠ true) :
    policies.filter AppraisalPolicy.isDefault = [] := by
  refine List.filter_eq_nil_iff.mpr fun p hp hd => ?_
  exact hno p.policy ((h.flags p hp).symm.trans hd)

theorem getDefaultPolicies_eq (env : Env) (db : Database) (fmspc : String) :
    getDefaultPolicies env db fmspc =
      match ((policiesOf env db fmspc).filter AppraisalPolicy.isDefault).map
        AppraisalPolicy.policy with
      | [] => .error noCacheData
      | defaults => .ok (",".intercalate defaults) := by
  unfold getDefaultPolicies policiesOf
  cases storedList env db fmspc with
  | none => rfl
  | some policies =>
    change (reject ((policies.filter AppraisalPolicy.isDefault).map AppraisalPolicy.policy = [])
      noCacheData >>= fun _ => pure (",".intercalate
        ((policies.filter AppraisalPolicy.isDefault).map AppraisalPolicy.policy))) = _
    rw [Option.getD_some]
    cases (policies.filter AppraisalPolicy.isDefault).map AppraisalPolicy.policy with
    | nil => rfl
    | cons t rest => rfl

/-- The list of an FMSPC holds every policy ever put, once, with the flag that the
last put touching it left; at most one is default, and it is the one served. A
put that is valid is answered with the id of its policy, and one that is not
changes nothing. -/
theorem one_default_per_fmspc (hsha : Function.Injective env.sha384Hex)
    (hhash : Function.Injective env.hash128Hex) {db : Database} (hrun : Run env puts db)
    (fmspc : String) :
    ((policiesOf env db fmspc).map AppraisalPolicy.policy).Nodup ∧
    (∀ text, text ∈ (policiesOf env db fmspc).map AppraisalPolicy.policy ↔
      ∃ q ∈ putsFor fmspc puts, q.policy = text) ∧
    (∀ p ∈ policiesOf env db fmspc, p.isDefault = flagOf p.policy (putsFor fmspc puts)) ∧
    ((policiesOf env db fmspc).filter AppraisalPolicy.isDefault).length ≤ 1 ∧
    (∀ newer q older, putsFor fmspc puts = newer ++ q :: older → q.isDefault = true →
      (∀ x ∈ newer, x.isDefault = false) →
      ((∀ x ∈ newer, x.policy ≠ q.policy) → getDefaultPolicies env db fmspc = .ok q.policy) ∧
      ((∃ x ∈ newer, x.policy = q.policy) →
        getDefaultPolicies env db fmspc = .error noCacheData)) ∧
    ((∀ x ∈ putsFor fmspc puts, x.isDefault = false) →
      getDefaultPolicies env db fmspc = .error noCacheData) ∧
    (∀ body reg, appraisalPolicy env body = .ok reg →
      (commit db (putAppraisalPolicy env db body)).1 = .ok (env.sha384Hex reg.policy)) ∧
    ∀ body e, appraisalPolicy env body = .error e →
      commit db (putAppraisalPolicy env db body) = (.error e, db) := by
  have h := tells_of_run hsha hhash hrun fmspc
  have hserve : ∀ text, flagOf text (putsFor fmspc puts) = true →
      getDefaultPolicies env db fmspc = .ok text := fun text hflag => by
    rw [getDefaultPolicies_eq, defaults_of_flag h hflag]
    simp
  have hmiss : (∀ text, flagOf text (putsFor fmspc puts) ≠ true) →
      getDefaultPolicies env db fmspc = .error noCacheData := fun hno => by
    rw [getDefaultPolicies_eq, no_defaults h hno]
    rfl
  refine ⟨h.once, fun text => ?_, h.flags, ?_, ?_, ?_, ?_, ?_⟩
  · rw [h.texts, List.mem_map]
  · by_cases hany : ∃ text, flagOf text (putsFor fmspc puts) = true
    · obtain ⟨text, hflag⟩ := hany
      have := congrArg List.length (defaults_of_flag h hflag)
      rw [List.length_map] at this
      exact Nat.le_of_eq this
    · rw [no_defaults h (fun text ht => hany ⟨text, ht⟩)]
      exact Nat.zero_le 1
  · intro newer q older hsplit hd hnewer
    constructor
    · intro hne
      exact hserve q.policy (flagOf_eq_true.mpr ⟨newer, q, older, hsplit, rfl, hd,
        fun x hx => ⟨hne x hx, hnewer x hx⟩⟩)
    · rintro ⟨x, hx, hxq⟩
      refine hmiss fun text hflag => ?_
      obtain ⟨newer', q', older', hsplit', hq', hd', hnewer'⟩ := flagOf_eq_true.mp hflag
      rw [hsplit] at hsplit'
      -- the newest default is the one whose flag would have to be left
      obtain ⟨a, ha, hrest⟩ | ⟨c, hc, hrest⟩ := List.append_eq_append_iff.mp hsplit'
      · cases a with
        | nil =>
          cases hrest
          exact (hnewer' x (by simp [ha, hx])).1 (hxq.trans hq')
        | cons y a =>
          cases hrest
          have := (hnewer' q (by simp [ha])).2
          rw [hd] at this
          cases this
      · cases c with
        | nil =>
          cases hrest
          exact (hnewer' x (by simpa [hc] using hx)).1 (hxq.trans hq')
        | cons y c =>
          cases hrest
          have := hnewer q' (by simp [hc])
          rw [hd'] at this
          cases this
  · intro hall
    refine hmiss fun text hflag => ?_
    obtain ⟨newer, q, older, hsplit, _, hd, _⟩ := flagOf_eq_true.mp hflag
    have := hall q (by simp [hsplit])
    rw [hd] at this
    cases this
  · intro body reg hreg
    rw [putAppraisalPolicy_of_reg hreg]
    rfl
  · intro body e he
    rw [putAppraisalPolicy_of_error he]
    rfl

/-- What the payload of an SGX policy says, and the payload itself. -/
def sgxClasses : Value :=
  .object [("policy_array", .array [.object [("environment", .object [("class_id",
    .string classIdSgx)])]])]

def sgxPayload : Value := .object [("policy_payload", .string (rawJson sgxClasses))]

/-- The payload as the middle segment of a policy. -/
def sgxSegment : String :=
  "eyJwb2xpY3lfcGF5bG9hZCI6IntcInBvbGljeV9hcnJheVwiOlt7XCJlbnZpcm9ubWVudFwiOntcImNsYXNzX2lkXCI6XCIzMTIzZWMzNS04ZDM4LTRlYTUtODdhNS1kNmM0OGI1Njc1NzBcIn19XX0ifQ"

/-- A process that reads the payload, and whose policy digests are plain texts. -/
def policyEnv : Env :=
  { Keys.readerEnv [sgxPayload, sgxClasses] with sha384Hex := id, urlSafeNoPad := base64UrlDecode }

def policyText (signature : String) : String := "e30." ++ sgxSegment ++ "." ++ signature

def policyBody (fmspc signature : String) (isDefault : Bool) : Value :=
  .object [("policy", .string (policyText signature)), ("is_default", .bool isDefault),
    ("fmspc", .string fmspc)]

theorem accepts_policyBody : ∀ signature ∈ ["YQ", "Yg"], ∀ isDefault : Bool,
    appraisalPolicy policyEnv (policyBody "00a067110000" signature isDefault) =
      .ok ⟨isDefault, "00A067110000", policyText signature, 0⟩ := by
  decide +kernel

/-- The store after a request for such a policy. -/
def asked (db : Database) (signature : String) (isDefault : Bool) : Database :=
  (commit db (putAppraisalPolicy policyEnv db (policyBody "00a067110000" signature isDefault))).2

theorem run_asked {db : Database} (h : Run policyEnv puts db) {signature : String}
    (hsignature : signature ∈ ["YQ", "Yg"]) (isDefault : Bool) :
    Run policyEnv (⟨"00a067110000", policyText signature, isDefault⟩ :: puts)
      (asked db signature isDefault) := by
  have hput := Run.put (policyBody "00a067110000" signature isDefault) h
  have hbody : Put.ofBody (policyBody "00a067110000" signature isDefault) =
      some ⟨"00a067110000", policyText signature, isDefault⟩ := rfl
  rw [asked]
  rw [putAppraisalPolicy_of_reg (accepts_policyBody signature hsignature isDefault)] at hput ⊢
  simpa only [commit, counted, hbody, Option.toList_some, List.singleton_append] using hput

/-- The policy put last as default is served, in any letter case of its FMSPC,
until it is put again without the flag; both policies are kept. -/
theorem one_default_per_fmspc_cleared :
    getDefaultPolicies policyEnv (asked (asked ∅ "YQ" true) "Yg" true) "00A067110000" =
      .ok (policyText "Yg") ∧
    getDefaultPolicies policyEnv (asked (asked (asked ∅ "YQ" true) "Yg" true) "Yg" false)
      "00A067110000" = .error noCacheData ∧
    ∀ signature ∈ ["YQ", "Yg"], policyText signature ∈
      (policiesOf policyEnv (asked (asked (asked ∅ "YQ" true) "Yg" true) "Yg" false)
        "00a067110000").map AppraisalPolicy.policy := by
  have hsha : Function.Injective policyEnv.sha384Hex := fun _ _ h => h
  have hhash : Function.Injective policyEnv.hash128Hex := Keys.plainEnv_injective
  have htwo : Run policyEnv [⟨"00a067110000", policyText "Yg", true⟩,
      ⟨"00a067110000", policyText "YQ", true⟩] (asked (asked ∅ "YQ" true) "Yg" true) :=
    run_asked (run_asked .start (by simp) true) (by simp) true
  have hthree : Run policyEnv [⟨"00a067110000", policyText "Yg", false⟩,
      ⟨"00a067110000", policyText "Yg", true⟩, ⟨"00a067110000", policyText "YQ", true⟩]
      (asked (asked (asked ∅ "YQ" true) "Yg" true) "Yg" false) :=
    run_asked htwo (by simp) false
  have hcase : toAsciiLowercase "00a067110000" = toAsciiLowercase "00A067110000" := by decide
  refine ⟨?_, ?_, ?_⟩
  · have hserve := (one_default_per_fmspc hsha hhash htwo "00A067110000").2.2.2.2.1 []
      ⟨"00a067110000", policyText "Yg", true⟩ [⟨"00a067110000", policyText "YQ", true⟩]
      (by simp [putsFor, hcase]) rfl (by simp)
    exact hserve.1 (by simp)
  · have hserve := (one_default_per_fmspc hsha hhash hthree "00A067110000").2.2.2.2.1
      [⟨"00a067110000", policyText "Yg", false⟩] ⟨"00a067110000", policyText "Yg", true⟩
      [⟨"00a067110000", policyText "YQ", true⟩] (by simp [putsFor, hcase]) rfl (by simp)
    exact hserve.2 (by simp)
  · intro signature hsignature
    refine ((one_default_per_fmspc hsha hhash hthree "00a067110000").2.1 _).mpr ?_
    obtain rfl | rfl : signature = "YQ" ∨ signature = "Yg" := by simpa using hsignature
    · exact ⟨⟨"00a067110000", policyText "YQ", true⟩, by simp [putsFor], rfl⟩
    · exact ⟨⟨"00a067110000", policyText "Yg", true⟩, by simp [putsFor], rfl⟩

end Histories

end Pccs.Appraisal
