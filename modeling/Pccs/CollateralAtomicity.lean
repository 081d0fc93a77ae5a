import Pccs.CoherentWriters

/-!
# What a failed `PUT /platformcollateral` leaves behind

The documents of a body are in the database before the first platform is
checked. A body that fails later therefore changes the store, unless it brings
no document that is new to it.
-/
namespace Pccs.Collateral

open Text Json Fallible KeyValue Store PccsError

variable {env : Env} {db : Database} {body : Value} {version : Nat}

/-- The platform phase takes an entry: its first certificate names FMSPC and
CA, the body carries TCB info for it, and every raw level can be served. -/
def EntryAccepted (env : Env) (db : Database) (body : Value) (version : Nat) (pc : Value) : Prop :=
  ∃ first info tcbInfo, (entryCerts pc).head? = some first ∧
    PckCert.parsePckCert first.2 = .ok info ∧ info.fmspc ≠ "" ∧ info.ca ≠ "" ∧
    ((arrayMember (collaterals body) "tcbinfos").find? fun t => upper t "fmspc" = info.fmspc).bind
      (collateralTcbInfo · version) = some tcbInfo ∧
    ∀ level ∈ entryLevels env db body pc, ∃ best,
      Selection.selectBestPckCert level.1 level.2 (pceIdOf pc) (entryCerts pc) tcbInfo = .ok best

/-- Every document of the body that no later one of the body replaces is
already stored as it is. -/
def DocumentsStored (env : Env) (db : Database) (body : Value) (version : Nat) : Prop :=
  ∀ before w after, documentWrites env body version = before ++ w :: after →
    (∀ w' ∈ after, w'.key ≠ w.key) → db[w.key]? = w.effect

theorem selectLevel_ok_iff {pc : Value} {pool : PlatformPool} {tcbInfo : Value}
    {level : String × String} :
    (∃ out, selectLevel pc pool tcbInfo level = .ok out) ↔
      ∃ best, Selection.selectBestPckCert level.1 level.2 (pceIdOf pc) (entryCerts pc) tcbInfo =
        .ok best := by
  unfold selectLevel
  cases Selection.selectBestPckCert level.1 level.2 (pceIdOf pc) (entryCerts pc) tcbInfo with
  | error e => simp
  | ok best => simp

theorem entryInfo_eq_ok {pc : Value} {info : PckCert.PckCertInfo} :
    entryInfo pc = .ok info ↔ ∃ first, (entryCerts pc).head? = some first ∧
      PckCert.parsePckCert first.2 = .ok info ∧ info.fmspc ≠ "" ∧ info.ca ≠ "" := by
  constructor
  · intro h
    obtain ⟨first, hfirst, h⟩ := bind_eq_ok.mp h
    obtain ⟨info', hinfo, h⟩ := bind_eq_ok.mp h
    obtain ⟨_, hset, h⟩ := bind_eq_ok.mp h
    cases pure_eq_ok.mp h
    have hset := not_or.mp (reject_eq_ok.mp hset)
    exact ⟨first, require_eq_ok.mp hfirst, mapError_eq_ok.mp hinfo, hset.1, hset.2⟩
  · rintro ⟨first, hfirst, hinfo, hf, hc⟩
    unfold entryInfo
    rw [bind_eq_ok]
    refine ⟨first, require_eq_ok.mpr hfirst, bind_eq_ok.mpr ⟨info, mapError_eq_ok.mpr hinfo, ?_⟩⟩
    exact bind_eq_ok.mpr ⟨(), reject_eq_ok.mpr (not_or.mpr ⟨hf, hc⟩), rfl⟩

theorem entryWrites_ok_iff {pc : Value} :
    (∃ batch, entryWrites env db body version pc = .ok batch) ↔
      EntryAccepted env db body version pc := by
  constructor
  · rintro ⟨batch, h⟩
    obtain ⟨info, hinfo, h⟩ := bind_eq_ok.mp h
    obtain ⟨tcbInfo, htcb, h⟩ := bind_eq_ok.mp h
    obtain ⟨selected, hselected, _⟩ := bind_eq_ok.mp h
    obtain ⟨first, hfirst, hparse, hf, hc⟩ := entryInfo_eq_ok.mp hinfo
    refine ⟨first, info, tcbInfo, hfirst, hparse, hf, hc, require_eq_ok.mp htcb, ?_⟩
    intro level hlevel
    exact selectLevel_ok_iff.mp (mapM_ok_iff.mp ⟨selected, hselected⟩ level hlevel)
  · rintro ⟨first, info, tcbInfo, hfirst, hparse, hf, hc, htcb, hlevels⟩
    obtain ⟨selected, hselected⟩ : ∃ selected, (entryLevels env db body pc).mapM
        (selectLevel pc (entryPool env db body pc info) tcbInfo) = .ok selected :=
      mapM_ok_iff.mpr fun level hlevel => selectLevel_ok_iff.mpr (hlevels level hlevel)
    have hinfo := entryInfo_eq_ok.mpr ⟨first, hfirst, hparse, hf, hc⟩
    exact ⟨_, bind_eq_ok.mpr ⟨info, hinfo, bind_eq_ok.mpr ⟨tcbInfo, require_eq_ok.mpr htcb,
      bind_eq_ok.mpr ⟨selected, hselected, rfl⟩⟩⟩⟩

/-- The documents do not touch the platforms an entry is merged with. -/
theorem entryAccepted_documents {pc : Value} :
    EntryAccepted env (write db (documentWrites env body version)) body version pc ↔
      EntryAccepted env db body version pc := by
  have hlevels : entryLevels env (write db (documentWrites env body version)) body pc =
      entryLevels env db body pc := by
    unfold entryLevels basePool getPlatformPool
    rw [Coherence.get_platform_inert (Coherence.documentWrites_inert env body version)]
  unfold EntryAccepted
  rw [hlevels]

/-- The platform phase succeeds exactly if it takes every entry. -/
theorem platformWrites_ok_iff :
    (∃ batch, platformWrites env (write db (documentWrites env body version)) body version =
      .ok batch) ↔
      ∀ pc ∈ arrayMember (collaterals body) "pck_certs", EntryAccepted env db body version pc := by
  have hmap : (∃ batch, platformWrites env (write db (documentWrites env body version)) body version =
      .ok batch) ↔ ∃ batches, (arrayMember (collaterals body) "pck_certs").mapM
        (entryWrites env (write db (documentWrites env body version)) body version) = .ok batches := by
    constructor
    · rintro ⟨batch, h⟩
      obtain ⟨batches, hbatches, _⟩ := bind_eq_ok.mp h
      exact ⟨batches, hbatches⟩
    · rintro ⟨batches, hbatches⟩
      exact ⟨_, bind_eq_ok.mpr ⟨batches, hbatches, rfl⟩⟩
  rw [hmap, mapM_ok_iff]
  refine forall_congr' fun pc => imp_congr_right fun _ => ?_
  rw [entryWrites_ok_iff, entryAccepted_documents]

/-- A failed request leaves the store as it was exactly if the schema stopped
it, or no entry can make it fail, or it brings no new document. -/
theorem failed_put_unchanged_iff (env : Env) (db : Database) (body : Value) (version : Nat) :
    (∀ e, (putPlatformCollateral env db body version).1 = .error e →
      (putPlatformCollateral env db body version).2 = db) ↔
    (∃ e, Validate.platformCollateral body version = .error e) ∨
      (∀ pc ∈ arrayMember (collaterals body) "pck_certs", EntryAccepted env db body version pc) ∨
      DocumentsStored env db body version := by
  rw [← platformWrites_ok_iff]
  unfold putPlatformCollateral DocumentsStored
  rw [← write_eq_self_iff]
  cases Validate.platformCollateral body version with
  | error e => simp
  | ok u =>
    cases hwrites : platformWrites env (write db (documentWrites env body version)) body version with
    | error e => simp [hwrites, commit, Except.map]
    | ok batch => simp [hwrites, commit, Except.map]

/-- A body with one TCB info and an entry without certificates. -/
def emptyCertsBody : Value := .object [
  ("platforms", .array []),
  ("collaterals", .object [
    ("version", .posInt 4),
    ("pck_certs", .array [.object [("qe_id", .string "A1"), ("pce_id", .string "0000"),
      ("enc_ppid", .string ""), ("certs", .array [])]]),
    ("tcbinfos", .array [.object [("fmspc", .string "00906ED50000"),
      ("sgx_tcbinfo", .object [("tcbInfo", .object []), ("signature", .string "")])]]),
    ("certificates", .object [("SGX-PCK-Certificate-Issuer-Chain", .object [])])])]

theorem emptyCertsBody_documents : documentWrites Keys.plainEnv emptyCertsBody 4 =
    [putTcb Keys.plainEnv
      { prodType := 0, fmspc := "00906ED50000", version := 4, updateType := "STANDARD",
        tcbinfo := .object [("tcbInfo", .object []), ("signature", .string "")],
        rawBody := rawJson (.object [("tcbInfo", .object []), ("signature", .string "")]),
        issuerChain := "" }] := rfl

/-- The entry fails and the TCB info stays. -/
theorem emptyCertsBody_leaves_document :
    ¬ (∀ e, (putPlatformCollateral Keys.plainEnv ∅ emptyCertsBody 4).1 = .error e →
      (putPlatformCollateral Keys.plainEnv ∅ emptyCertsBody 4).2 = ∅) := by
  have hschema : Validate.platformCollateral emptyCertsBody 4 = .ok () := rfl
  have hwrites : ∀ db, platformWrites Keys.plainEnv db emptyCertsBody 4 = .error invalidReq :=
    fun _ => rfl
  unfold putPlatformCollateral
  rw [hschema]
  simp only [hwrites]
  intro h
  have hempty := h invalidReq rfl
  have hrow := (write_eq_self_iff ∅ _).mp hempty [] _ [] emptyCertsBody_documents (by simp)
  simp [putTcb, Write.effect] at hrow

end Pccs.Collateral
