import Pccs.KeySpace
import Pccs.Lookups

/-!
# How a lookup reads through the store

A lookup of LAZY mode looks into the store; takes the lock of its key, unless a
failure is remembered for it; looks at what else is remembered, if it relays
statuses; looks into the store again; and only then asks the upstream. The last
thing it does is to write what it got, or to remember why it got nothing. Every
lookup is shown to proceed in this order.
-/
namespace Pccs.Cache

open Text Encoding Json Fallible KeyValue PccsError Store Process Ocsp

/-- The lookups that read through the store. The one of a certificate is the part
after local selection failed. -/
inductive Lookup where
  | amdKds (pathAndQuery : String)
  | nvidiaRim (pathAndQuery : String)
  | nvidiaOcsp (body : List UInt8)
  | tcb (prodType : Nat) (fmspc : String) (version : Nat) (update : UpdateType)
  | identity (enclaveId version : Nat) (update : UpdateType)
  | pckcrl (ca : String) (version : Nat)
  | rootcacrl (version : Nat)
  | crl (uri : String) (version : Nat)
  | pckcert (q : Validate.PckcertQuery) (version : Nat)

abbrev Lookup.Reply : Lookup → Type
  | .amdKds _ => AmdKdsResponse
  | .nvidiaRim _ => AmdKdsResponse
  | .nvidiaOcsp _ => AmdKdsResponse
  | .tcb _ _ _ _ => TcbRecord
  | .identity _ _ _ => IdentityRecord
  | .pckcrl _ _ => PckCrlRecord
  | .rootcacrl _ => List UInt8
  | .crl _ _ => List UInt8
  | .pckcert _ _ => PckCertRecord

section Lookups

variable (env : Env) (chrono : Chrono) (cfg : Config)

def Lookup.body : (q : Lookup) → Attempt q.Reply
  | .amdKds pathAndQuery => getAmdKdsRequest env cfg pathAndQuery
  | .nvidiaRim pathAndQuery => getNvidiaRimRequest env cfg pathAndQuery
  | .nvidiaOcsp body => getNvidiaOcspRequest env chrono cfg body
  | .tcb prodType fmspc version update => getTcbRequest env cfg prodType fmspc version update
  | .identity enclaveId version update => getIdentityRequest env cfg enclaveId version update
  | .pckcrl ca version => getPckcrlRequest env cfg ca version
  | .rootcacrl version => getRootcacrlRequest cfg version
  | .crl uri version => getCrlRequest env cfg uri version
  | .pckcert q version => getUncached env cfg q version

/-- The key of a lookup; a malformed one is refused before it has any. -/
def Lookup.key : Lookup → Option (List UInt8)
  | .amdKds pathAndQuery => (Paths.canonicalizeAmdKds pathAndQuery).toOption.map fun path =>
    Keys.amdKds env (Paths.joinHostPath cfg.amdKdsUri path)
  | .nvidiaRim pathAndQuery => (Paths.canonicalizeNvidiaRim pathAndQuery).toOption.map fun path =>
    Keys.nvidiaRim env (Paths.joinHostPath cfg.nvidiaRimUri path)
  | .nvidiaOcsp body => (parseRequest env body).toOption.map Keys.nvidiaOcsp
  | .tcb prodType fmspc version update =>
    some (Keys.tcb env (Keys.prodName prodType) version fmspc update.asStr)
  | .identity enclaveId version update =>
    some (Keys.identity env (Keys.identityName enclaveId) version update.asStr)
  | .pckcrl ca _ => some (Keys.pckcrl env ca)
  | .rootcacrl _ => some Keys.rootcacrl
  | .crl uri _ => some (Keys.crl env uri)
  | .pckcert q _ => some (Keys.pckcert env q.qeid q.pceid q.cpusvn q.pcesvn)

/-- The answer of a proxied URL from a record that is for this URL. -/
def serveUrl (url : String) (rec : Option AmdKdsRecord) : Option AmdKdsResponse :=
  (rec.filter fun rec => rec.url = url).map responseOf

/-- What a lookup answers from a row under its key. -/
def Lookup.serves : (q : Lookup) → Row → Option q.Reply
  | .amdKds pathAndQuery => fun row => (Paths.canonicalizeAmdKds pathAndQuery).toOption.bind
    fun path => serveUrl (Paths.joinHostPath cfg.amdKdsUri path) (Fifo.rowAmdKds row)
  | .nvidiaRim pathAndQuery => fun row => (Paths.canonicalizeNvidiaRim pathAndQuery).toOption.bind
    fun path => serveUrl (Paths.joinHostPath cfg.nvidiaRimUri path) (Fifo.rowNvidiaRim row)
  | .nvidiaOcsp body => fun
    | .nvidiaOcsp rec => if (parseRequest env body).toOption = some rec.cacheKey then some (served rec)
      else none
    | _ => none
  | .tcb prodType fmspc version update => fun row => (rowTcb row).filter fun rec =>
    rec.prodType == prodType && rec.version == version && eqIgnoreAsciiCase rec.fmspc fmspc &&
      eqIgnoreAsciiCase rec.updateType update.asStr
  | .identity enclaveId version update => fun row => (rowIdentity row).filter fun rec =>
    rec.enclaveId == enclaveId && rec.version == version &&
      eqIgnoreAsciiCase rec.updateType update.asStr
  | .pckcrl ca _ => fun row => (rowPckcrl row).filter fun rec => eqIgnoreAsciiCase rec.ca ca
  | .rootcacrl _ => rowRootcacrl
  | .crl _ _ => fun row => (rowCrl row).map CrlRecord.crl
  | .pckcert q _ => fun row => (rowPckcert row).filter fun rec =>
    eqIgnoreAsciiCase rec.qeid q.qeid && eqIgnoreAsciiCase rec.pceid q.pceid &&
      eqIgnoreAsciiCase rec.cpusvn q.cpusvn && eqIgnoreAsciiCase rec.pcesvn q.pcesvn

/-- Proxied records are valid for a while. -/
def fresh (now : Nat) : Row → Bool
  | .amdKds rec => decide (now - rec.fetchedAt < cfg.amdKdsCacheTtlSecs)
  | .nvidiaRim rec => decide (now - rec.fetchedAt < cfg.nvidiaRimCacheTtlSecs)
  | .nvidiaOcsp rec => decide (now < rec.expiresAt)
  | _ => true

end Lookups

section Discipline

/-- The accesses to the store, and the reading of the wall clock. -/
def Op.inStore : Op → Bool
  | .fetch _ => false
  | .keyLock _ => false
  | .remember _ _ => false
  | .recentNon200 _ => false
  | .rememberResponse _ _ => false
  | _ => true

/-- A record was written that answers the lookup. -/
def wrote : (o : Op) → o.Res → Bool
  | .put _, _ => true
  | .saveUrl _ _, _ => true
  | .putNvidiaOcsp _, _ => true
  | .selectPlatformCert _ _ _ _, .ok _ => true
  | .storePckcerts _ _ _ _ _ _, .ok (some _) => true
  | .mergePckcert _ _, .ok _ => true
  | _, _ => false

/-- After a record was written or an outcome was remembered, nothing is left to
do. -/
def final : (o : Op) → o.Res → Bool
  | .remember _ _, _ => true
  | .rememberResponse _ _, _ => true
  | o, r => wrote o r

/-- Statuses are relayed for the kinds that are proxied. -/
def Relayed (key : List UInt8) : Prop := ∃ kind : Fifo.Kind, asBytes kind.name <+: key

def Ended {α : Type} (p : Action α) : Prop := ∃ a, p = .ret a

/-- What is looked at before the lock. -/
def Op.Plain (o : Op) : Prop := o.inStore = true ∧ ∀ r, wrote o r = false

/-- What may be done under the lock of a key once nothing is remembered for it. -/
def Permitted (key : List UInt8) : Op → Prop
  | .keyLock _ => False
  | .recentNon200 _ => False
  | .remember k _ => k = key
  | .rememberResponse k _ => k = key ∧ Relayed key
  | _ => True

/-- The state of a process here is what happened last in it. -/
def happens (_ : Option (Event Op Op.Res)) (o : Op) (r : o.Res) (s : Option (Event Op Op.Res)) :
    Prop :=
  s = some ⟨o, r⟩

def Undecided (_ s : Option (Event Op Op.Res)) : Prop := ∀ e, s = some e → final e.1 e.2 = false

/-- Nothing follows the operation that decides the outcome. -/
abbrev Tidy {α : Type} (success : α → Prop) (p : Action α) : Prop :=
  Staged happens Undecided success p

structure Clear {α : Type} (key : List UInt8) (p : Action α) : Prop where
  permitted : Only (Permitted key) p
  tidy : Tidy (fun _ => True) p

/-- The part of a lookup under the lock. -/
inductive Checked {α : Type} (key : List UInt8) : Action α → Prop
  | direct {p : Action α} (hkey : ¬ Relayed key) (hp : Clear key p) : Checked key p
  | relayed {k : Option AmdKdsResponse → Action α} (hkey : Relayed key)
      (hsome : ∀ resp, Ended (k (some resp))) (hnone : Clear key (k none)) :
      Checked key (.op (.recentNon200 key) k)

variable (env : Env) (cfg : Config) {α : Type} (serves : Row → Option α)

/-- An operation at a store and a wall clock, while nothing is remembered. -/
def performAt (s : Database × Nat) : (o : Op) → o.Res → Database × Nat → Prop
  | .unixTime, r, s' => r = s.2 ∧ s' = s
  | .recentNon200 _, r, s' => r = none ∧ s' = s
  | o, r, s' => perform env cfg s.1 o r s'.1 ∧ s'.2 = s.2

/-- While a valid row stays under a key, and nothing is remembered for it, a
lookup reads the row and asks for nothing. -/
def reading (key : List UInt8) (row : Row) : Keeps Op Op.Res (Database × Nat) where
  perform := performAt env cfg
  inv s := s.1[key]? = some row ∧ fresh cfg s.2 row = true
  guar _ _ o _ _ := o.inStore = true ∨ o = .recentNon200 key

/-- What a lookup does with the lock of its key. -/
structure Locks (key : List UInt8) (k : Except PccsError Unit → Attempt α) : Prop where
  refused : ∀ e, Ended (k (.error e))
  checked : Checked key (k (.ok ()))
  reads : ∀ row a, serves row = some a →
    Safe (reading env cfg key row) (fun _ r => r = .ok a) (k (.ok ())) []

/-- The order of a lookup before it comes to the lock. -/
inductive Orderly (key : List UInt8) : Attempt α → Prop
  | done (r : Except PccsError α) : Orderly key (.ret r)
  | look {o : Op} {k : o.Res → Attempt α} (ho : o.Plain) (hk : ∀ r, Orderly key (k r)) :
      Orderly key (.op o k)
  | lock {k : Except PccsError Unit → Attempt α} (hk : Locks env cfg serves key k) :
      Orderly key (.op (.keyLock key) k)

end Discipline

section Rules

variable {env : Env} {cfg : Config} {α β : Type} {serves : Row → Option α} {key : List UInt8}

theorem Clear.done (r : α) : Clear key (.ret r : Action α) := ⟨trivial, trivial⟩

/-- The process goes on, unless it has just decided the outcome. -/
theorem Clear.op {o : Op} {k : o.Res → Action α} (h : Clear key (.op o k)) :
    Permitted key o ∧ ∀ r, (Clear key (k r) ∧ final o r = false) ∨ Ended (k r) := by
  refine ⟨h.permitted.1, fun r => ?_⟩
  obtain ⟨hquiet, hrest⟩ | ⟨a, ha, _⟩ := h.tidy none r (some ⟨o, r⟩) rfl
  · exact .inl ⟨⟨h.permitted.2 r, hrest⟩, hquiet _ rfl⟩
  · exact .inr ⟨a, ha⟩

/-- The operation does not decide the outcome. -/
def Op.Passing (o : Op) : Prop := ∀ r, final o r = false

theorem quiet_of_only {p : Action α} (h : Only Op.Passing p) : Tidy (fun _ => False) p := by
  induction p with
  | ret a => trivial
  | op o k ih =>
    intro _ r s hs
    refine .inl ⟨?_, ih r (h.2 r)⟩
    rintro e he
    cases hs.symm.trans he
    exact h.1 r

def Op.Asks (o : Op) : Prop := ∃ f, o = .fetch f

theorem Op.Asks.passing {o : Op} (h : o.Asks) : o.Passing := by
  obtain ⟨f, rfl⟩ := h
  exact fun _ => rfl

theorem Op.Asks.permitted {o : Op} (h : o.Asks) : Permitted key o := by
  obtain ⟨f, rfl⟩ := h
  trivial

theorem Op.Plain.passing {o : Op} (h : o.Plain) : o.Passing := by
  cases o <;> first | exact h.2 | cases h.1

theorem Op.Plain.permitted {o : Op} (h : o.Plain) : Permitted key o := by
  cases o <;> first | trivial | cases h.1

theorem Clear.plain {p : Action β} {f : β → Action α} (hp : Only Op.Plain p)
    (hf : ∀ b, Clear key (f b)) : Clear key (p.bind f) := by
  refine ⟨only_bind (only_mono (fun _ h => h.permitted) hp) fun b => (hf b).permitted, ?_⟩
  exact quiet_bind (quiet_of_only (only_mono (fun _ h => h.passing) hp)) fun b => (hf b).tidy

theorem tidy_final {o : Op} {f : o.Res → Action β} {success : β → Prop}
    (h : ∀ r, ∃ b, f r = .ret b ∧ success b) : Tidy success ((act o).bind f) :=
  fun _ r _ _ => .inr (h r)

/-- The note of a failure is the last thing a fill does. -/
theorem tidy_note {p : Attempt α} (hp : Tidy (fun r => ∃ a, r = .ok a) p) :
    Tidy (fun _ => True) (note key p) := by
  refine staged_bind hp ?_ fun r hr => ?_
  · rintro _ ⟨a, rfl⟩
    exact ⟨.ok a, rfl, trivial⟩
  · cases r with
    | ok a => exact absurd ⟨a, rfl⟩ hr
    | error e => exact tidy_final fun _ => ⟨.error e, rfl, trivial⟩

theorem permitted_note {p : Attempt α} (hp : Only (Permitted key) p) :
    Only (Permitted key) (note key p) := by
  refine only_bind hp fun r => ?_
  cases r with
  | ok a => trivial
  | error e => exact only_bind (only_call rfl) fun _ => trivial

/-- A fetch whose failure is noted, and what becomes of its success. -/
theorem clear_noted {fetch : Attempt β} {settle : β → Attempt α}
    (hfetch : Only Op.Asks fetch) (hsettle : ∀ b, Clear key (settle b)) :
    Clear key ((note key fetch).andThen settle) := by
  have hask : Only (Permitted key) fetch := only_mono (fun _ h => h.permitted) hfetch
  refine ⟨only_andThen (permitted_note hask) fun b => (hsettle b).permitted, ?_⟩
  -- the note ends the fill after a failure
  have hnote : Tidy (fun r => ∃ e, r = .error e) (note key fetch) := by
    refine quiet_bind (quiet_of_only (only_mono (fun _ h => h.passing) hfetch)) fun r => ?_
    cases r with
    | ok b => trivial
    | error e => exact tidy_final fun _ => ⟨.error e, rfl, e, rfl⟩
  refine staged_bind hnote ?_ fun r hr => ?_
  · rintro _ ⟨e, rfl⟩
    exact ⟨.error e, rfl, trivial⟩
  · cases r with
    | ok b => exact (hsettle b).tidy
    | error e => exact absurd ⟨e, rfl⟩ hr

theorem orderly_bind {p : Action β} {f : β → Attempt α} (hp : Only Op.Plain p)
    (hf : ∀ b, Orderly env cfg serves key (f b)) : Orderly env cfg serves key (p.bind f) := by
  induction p with
  | ret b => exact hf b
  | op o k ih => exact .look hp.1 fun r => ih r (hp.2 r)

theorem orderly_lock {f : Unit → Attempt α} (hchecked : Checked key (f ()))
    (hreads : ∀ row a, serves row = some a →
      Safe (reading env cfg key row) (fun _ r => r = .ok a) (f ()) []) :
    Orderly env cfg serves key ((act (.keyLock key)).andThen f) :=
  .lock ⟨fun e => ⟨.error e, rfl⟩, hchecked, hreads⟩

end Rules

section Documents

variable {env : Env} {cfg : Config} {α : Type} {serves : Row → Option α} {key : List UInt8}
  {load : Action (Option α)} {fetch : Attempt α} {store : α → Action Unit}

/-- The store of a document is at most one write. -/
def OneWrite (store : α → Action Unit) : Prop :=
  ∀ a, store a = .ret () ∨ ∃ w, store a = act (.put w)

theorem oneWrite_put (w : α → Write UInt8 Row) : OneWrite fun a => act (.put (w a)) :=
  fun a => .inr ⟨w a, rfl⟩

theorem oneWrite_cacheable (chain : α → String) (w : α → Write UInt8 Row) :
    OneWrite fun a => putIfCacheable (chain a) (w a) := by
  intro a
  simp only [putIfCacheable]
  split
  · exact .inr ⟨w a, rfl⟩
  · exact .inl rfl

theorem clear_filled (hfetch : Only Op.Asks fetch) (hstore : OneWrite store) :
    Clear key ((note key fetch).andThen fun rec => (store rec).bind fun _ => .ret (.ok rec)) := by
  refine clear_noted hfetch fun rec => ?_
  obtain hnone | ⟨w, hw⟩ := hstore rec
  · rw [hnone]
    exact .done _
  · rw [hw]
    exact ⟨only_bind (only_call trivial) fun _ => trivial, tidy_final fun _ => ⟨_, rfl, trivial⟩⟩

/-- A look that finds the record of a valid row. -/
abbrev Finds (env : Env) (cfg : Config) (serves : Row → Option α) (key : List UInt8)
    (load : Action (Option α)) : Prop :=
  ∀ row a, serves row = some a → Safe (reading env cfg key row) (fun _ r => r = some a) load []

/-- A single read of the store. -/
theorem safe_read {o : Op} (find : Database → o.Res) {row : Row} {found : o.Res}
    {past : List (Event Op Op.Res)} (ho : o.inStore = true)
    (hread : ∀ s r s', performAt env cfg s o r s' → r = find s.1 ∧ s' = s)
    (hfind : ∀ db : Database, db[key]? = some row → find db = found) :
    Safe (reading env cfg key row) (fun _ r => r = found) (act o) past := by
  refine safe_call fun s r s' hs hr => ?_
  obtain ⟨rfl, rfl⟩ := hread s r s' hr
  exact ⟨hs, .inl ho, hfind _ hs.1⟩

theorem orderly_lookupLocked (hkey : ¬ Relayed key) (hload : Only Op.Plain load)
    (hfinds : Finds env cfg serves key load) (hfetch : Only Op.Asks fetch)
    (hstore : OneWrite store) :
    Orderly env cfg serves key (lookupLocked key load fetch store) := by
  refine orderly_lock (.direct hkey (.plain hload fun found => ?_)) fun row a ha => ?_
  · cases found with
    | some rec => exact .done _
    | none => exact clear_filled hfetch hstore
  · refine safe_bind (hfinds row a ha) fun _ found _ hfound => ?_
    cases hfound
    rfl

theorem orderly_lookupDocument (hkey : ¬ Relayed key) (hload : Only Op.Plain load)
    (hfinds : Finds env cfg serves key load) (hfetch : Only Op.Asks fetch)
    (hstore : OneWrite store) (version : Nat) :
    Orderly env cfg serves key (lookupDocument cfg version key load fetch store) := by
  refine orderly_bind hload fun found => ?_
  cases found with
  | some rec => exact .done _
  | none =>
    simp only
    split
    · exact .done _
    split
    · exact .done _
    split
    · exact .done _
    · exact orderly_lookupLocked hkey hload hfinds hfetch hstore

end Documents

section Intel

variable {env : Env} {cfg : Config}

/-- The kinds that are not proxied relay nothing. -/
theorem not_relayed (k : KeySpace.StoreKey) (f : KeySpace.Family) (hk : k.family = f)
    (hf : f ∉ [KeySpace.Family.amdKds, .nvidiaRim, .nvidiaOcsp]) : ¬ Relayed (k.bytes env) := by
  rintro ⟨kind, hkind⟩
  have hword : ∀ g : KeySpace.Family, asBytes g.word <+: k.bytes env → g = f :=
    fun g hg => (KeySpace.family_eq_of_word hg).symm.trans hk
  refine hf ?_
  cases kind with
  | amdKds => simp [← hword .amdKds hkind]
  | nvidiaRim => simp [← hword .nvidiaRim hkind]
  | nvidiaOcsp => simp [← hword .nvidiaOcsp hkind]

theorem asks_fetch (f : Fetch) : Op.Asks (.fetch f) := ⟨f, rfl⟩

theorem orderly_tcb (prodType : Nat) (fmspc : String) (version : Nat) (update : UpdateType) :
    Orderly env cfg (Lookup.serves env cfg (.tcb prodType fmspc version update))
      (Keys.tcb env (Keys.prodName prodType) version fmspc update.asStr)
      (getTcbRequest env cfg prodType fmspc version update) := by
  have hkey : ¬ Relayed (Keys.tcb env (Keys.prodName prodType) version fmspc update.asStr) :=
    not_relayed (.tcb _ version fmspc _) .tcb rfl (by decide)
  refine orderly_lookupDocument hkey
    (only_call ⟨rfl, fun _ => rfl⟩) (fun row a ha => ?_) (only_fetchTcb (asks_fetch _))
    (oneWrite_cacheable _ _) version
  refine safe_read (fun db => getTcb env db prodType fmspc version update) rfl
    (fun s r s' h => ⟨h.1.1, Prod.ext h.1.2 h.2⟩) fun db hrow => ?_
  obtain ⟨hrec, hfor⟩ := Option.filter_eq_some_iff.mp ha
  simp only [Bool.and_eq_true, beq_iff_eq] at hfor
  simp [getTcb, hrow, hrec, hfor]

theorem orderly_identity (enclaveId version : Nat) (update : UpdateType) :
    Orderly env cfg (Lookup.serves env cfg (.identity enclaveId version update))
      (Keys.identity env (Keys.identityName enclaveId) version update.asStr)
      (getIdentityRequest env cfg enclaveId version update) := by
  have hkey : ¬ Relayed (Keys.identity env (Keys.identityName enclaveId) version update.asStr) :=
    not_relayed (.identity _ version _) .identity rfl (by decide)
  refine orderly_lookupDocument hkey
    (only_call ⟨rfl, fun _ => rfl⟩) (fun row a ha => ?_) (only_fetchIdentity (asks_fetch _))
    (oneWrite_cacheable _ _) version
  refine safe_read (fun db => getIdentity env db enclaveId version update) rfl
    (fun s r s' h => ⟨h.1.1, Prod.ext h.1.2 h.2⟩) fun db hrow => ?_
  obtain ⟨hrec, hfor⟩ := Option.filter_eq_some_iff.mp ha
  simp only [Bool.and_eq_true, beq_iff_eq] at hfor
  simp [getIdentity, hrow, hrec, hfor]

theorem orderly_pckcrl (ca : String) (version : Nat) :
    Orderly env cfg (Lookup.serves env cfg (.pckcrl ca version)) (Keys.pckcrl env ca)
      (getPckcrlRequest env cfg ca version) := by
  have hkey : ¬ Relayed (Keys.pckcrl env ca) := not_relayed (.pckcrl ca) .pckcrl rfl (by decide)
  refine orderly_lookupDocument hkey
    (only_call ⟨rfl, fun _ => rfl⟩) (fun row a ha => ?_) (only_parsed (asks_fetch _) _)
    (oneWrite_cacheable _ _) version
  refine safe_read (fun db => getPckcrl env db ca) rfl
    (fun s r s' h => ⟨h.1.1, Prod.ext h.1.2 h.2⟩) fun db hrow => ?_
  obtain ⟨hrec, hfor⟩ := Option.filter_eq_some_iff.mp ha
  simpa [getPckcrl, hrow, hrec] using hfor

theorem orderly_rootcacrl (version : Nat) :
    Orderly env cfg (Lookup.serves env cfg (.rootcacrl version)) Keys.rootcacrl
      (getRootcacrlRequest cfg version) := by
  have hkey : ¬ Relayed (KeySpace.StoreKey.bytes env .rootcacrl) :=
    not_relayed .rootcacrl .rootcacrl rfl (by decide)
  refine orderly_lookupDocument hkey
    (only_call ⟨rfl, fun _ => rfl⟩) (fun row a ha => ?_) (only_parsed (asks_fetch _) _)
    (oneWrite_put _) version
  refine safe_read (fun db => getRootcacrl db) rfl
    (fun s r s' h => ⟨h.1.1, Prod.ext h.1.2 h.2⟩) fun db hrow => ?_
  have hrow : db[Keys.rootcacrl]? = some row := hrow
  simp only [getRootcacrl, hrow, Option.bind_some]
  exact ha

theorem orderly_crl (uri : String) (version : Nat) :
    Orderly env cfg (Lookup.serves env cfg (.crl uri version)) (Keys.crl env uri)
      (getCrlRequest env cfg uri version) := by
  have hkey : ¬ Relayed (Keys.crl env uri) := not_relayed (.crl uri) .crl rfl (by decide)
  have hload : Only Op.Plain (act (.getCrl uri)) := only_call ⟨rfl, fun _ => rfl⟩
  refine orderly_bind hload fun found => ?_
  cases found with
  | some rec => exact .done _
  | none =>
    simp only
    split
    · exact .done _
    split
    · exact .done _
    refine orderly_lookupLocked hkey hload
      (fun row a ha => ?_) (only_fetchCrl (asks_fetch _)) (oneWrite_put _)
    refine safe_read (fun db => getCrl env db uri) rfl
      (fun s r s' h => ⟨h.1.1, Prod.ext h.1.2 h.2⟩) fun db hrow => ?_
    simpa [getCrl, hrow, Lookup.serves] using ha

end Intel

section Proxied

variable {env : Env} {chrono : Chrono} {cfg : Config}

theorem safe_unixTime {key : List UInt8} {row : Row} {past : List (Event Op Op.Res)} :
    Safe (reading env cfg key row) (fun _ now => fresh cfg now row = true) (act .unixTime) past := by
  refine safe_call fun s r s' hs hr => ?_
  obtain ⟨rfl, rfl⟩ := hr
  exact ⟨hs, .inl rfl, hs.2⟩

/-- Nothing is remembered while a valid row is read. -/
theorem safe_recentNon200 {key : List UInt8} {row : Row} {past : List (Event Op Op.Res)} :
    Safe (reading env cfg key row) (fun _ r => r = none) (act (.recentNon200 key)) past := by
  refine safe_call fun s r s' hs hr => ?_
  obtain ⟨rfl, rfl⟩ := hr
  exact ⟨hs, .inr rfl, rfl⟩

/-- A status or a record is the last thing a fetch of a URL leaves. -/
theorem clear_settleUrl {key : List UInt8} (hkey : Relayed key) (kind : Fifo.Kind) (url : String)
    (e : PccsError) (r : HttpResponse) : Clear key (settleUrl kind url key e r) := by
  unfold settleUrl
  simp only
  split
  · exact ⟨permitted_note trivial, tidy_note trivial⟩
  split
  · exact ⟨only_bind (only_call ⟨rfl, hkey⟩) fun _ => trivial,
      tidy_final fun _ => ⟨_, rfl, trivial⟩⟩
  · refine .plain (only_call ⟨rfl, fun _ => rfl⟩) fun fetchedAt => ?_
    exact ⟨only_bind (only_call trivial) fun _ => trivial, tidy_final fun _ => ⟨_, rfl, trivial⟩⟩

theorem relayed_urlKey (kind : Fifo.Kind) (url : String) :
    Relayed (asBytes (urlKey env kind url)) := by
  refine ⟨kind, ?_⟩
  rw [urlKey, asBytes_append]
  exact List.prefix_append _ _

theorem clear_fetchUrl (kind : Fifo.Kind) (url : String) (e : PccsError) :
    Clear (asBytes (urlKey env kind url)) (fetchUrl env kind url e) := by
  refine clear_noted (only_bind (only_call ⟨_, rfl⟩) fun _ => trivial) fun r => ?_
  exact clear_settleUrl (relayed_urlKey kind url) kind url e r

/-- Look at the clock and at the record of a URL, and go on with both. -/
theorem safe_lookUrl {kind : Fifo.Kind} {url : String} {key : List UInt8} {row : Row}
    {rec : AmdKdsRecord} {α : Type} {post : α → Prop} {past : List (Event Op Op.Res)}
    {f : Nat → Option AmdKdsRecord → Action α}
    (hload : ∀ db : Database, db[key]? = some row → loadUrl env db kind url = some rec)
    (hf : ∀ now past', fresh cfg now row = true →
      Safe (reading env cfg key row) (fun _ => post) (f now (some rec)) past') :
    Safe (reading env cfg key row) (fun _ => post)
      ((act .unixTime).bind fun now => (act (.loadUrl kind url)).bind (f now)) past := by
  refine safe_bind safe_unixTime fun past₁ now _ hnow => ?_
  refine safe_bind (safe_read (fun db => loadUrl env db kind url) rfl
    (fun s r s' h => ⟨h.1.1, Prod.ext h.1.2 h.2⟩) hload) fun past₂ found _ hfound => ?_
  cases hfound
  exact hf now past₂ hnow

/-- The part of a URL lookup under the lock of its key. -/
def lockedUrl (env : Env) (kind : Fifo.Kind) (url : String) (ttl : Nat) (e : PccsError) :
    Attempt AmdKdsResponse :=
  (act .unixTime).bind fun now => (act (.loadUrl kind url)).bind fun
    | none => fetchUrl env kind url e
    | some rec =>
      if decide (now - rec.fetchedAt < ttl) then .ret (.ok (responseOf rec))
      else (act (.deleteKey (urlKey env kind url))).bind fun _ => fetchUrl env kind url e

/-- LAZY leaves an expired record to the lookup under the lock. -/
theorem getCachedUrl_lazy (hlazy : cfg.mode = .lazy) (kind : Fifo.Kind) (url : String) (ttl : Nat)
    (e : PccsError) : getCachedUrl env cfg kind url ttl e =
      (act .unixTime).bind fun now => (act (.loadUrl kind url)).bind fun found =>
        match found.filter fun rec => now - rec.fetchedAt < ttl with
        | some rec => .ret (.ok (responseOf rec))
        | none => (act (.keyLock (asBytes (urlKey env kind url)))).andThen fun _ =>
          (act (.recentNon200 (asBytes (urlKey env kind url)))).bind fun
            | some resp => .ret (.ok resp)
            | none => lockedUrl env kind url ttl e := by
  simp only [getCachedUrl, hlazy, ne_eq, not_true_eq_false, if_false]
  congr 1
  funext now
  congr 1
  funext found
  cases found with
  | none =>
    simp only [Option.filter_none]
    congr 1
    funext _
    congr 1
    funext r
    cases r <;> rfl
  | some rec =>
    by_cases hfresh : now - rec.fetchedAt < ttl
    · simp only [hfresh, decide_true, if_true, Option.filter_some]
    · simp only [hfresh, decide_false, Bool.false_eq_true, if_false, Option.filter_some]
      congr 1
      funext _
      congr 1
      funext r
      cases r <;> rfl

theorem clear_lockedUrl (kind : Fifo.Kind) (url : String) (ttl : Nat) (e : PccsError) :
    Clear (asBytes (urlKey env kind url)) (lockedUrl env kind url ttl e) := by
  have hfill := @clear_fetchUrl env kind url e
  refine .plain (only_call ⟨rfl, fun _ => rfl⟩) fun now => ?_
  refine .plain (only_call ⟨rfl, fun _ => rfl⟩) fun found => ?_
  cases found with
  | none => exact hfill
  | some rec =>
    simp only
    split
    · exact .done _
    · exact .plain (only_call ⟨rfl, fun _ => rfl⟩) fun _ => hfill

theorem orderly_getCachedUrl (hlazy : cfg.mode = .lazy) {kind : Fifo.Kind} {url : String}
    {ttl : Nat} {serves : Row → Option AmdKdsResponse}
    (hserves : ∀ row a, serves row = some a → ∃ rec, a = responseOf rec ∧
      (∀ db : Database, db[asBytes (urlKey env kind url)]? = some row →
        loadUrl env db kind url = some rec) ∧
      ∀ now, fresh cfg now row = true → now - rec.fetchedAt < ttl) (e : PccsError) :
    Orderly env cfg serves (asBytes (urlKey env kind url))
      (getCachedUrl env cfg kind url ttl e) := by
  rw [getCachedUrl_lazy hlazy]
  refine orderly_bind (only_call ⟨rfl, fun _ => rfl⟩) fun now => ?_
  refine orderly_bind (only_call ⟨rfl, fun _ => rfl⟩) fun found => ?_
  split
  · exact .done _
  refine orderly_lock (.relayed (relayed_urlKey kind url) (fun resp => ⟨.ok resp, rfl⟩)
    (clear_lockedUrl kind url ttl e)) fun row a ha => ?_
  obtain ⟨rec, rfl, hload, hfresh⟩ := hserves row a ha
  refine safe_bind safe_recentNon200 fun past₁ r _ hr => ?_
  cases hr
  refine safe_lookUrl hload fun now past₂ hnow => ?_
  simp only [hfresh now hnow, decide_true, if_true]
  rfl

theorem orderly_amdKds (hlazy : cfg.mode = .lazy) {pathAndQuery path : String}
    (hpath : Paths.canonicalizeAmdKds pathAndQuery = .ok path) :
    Orderly env cfg (Lookup.serves env cfg (.amdKds pathAndQuery))
      (Keys.amdKds env (Paths.joinHostPath cfg.amdKdsUri path))
      (getAmdKdsRequest env cfg pathAndQuery) := by
  rw [getAmdKdsRequest, hpath]
  change Orderly env cfg _ (asBytes (urlKey env .amdKds (Paths.joinHostPath cfg.amdKdsUri path)))
    (getCachedUrl env cfg .amdKds (Paths.joinHostPath cfg.amdKdsUri path) cfg.amdKdsCacheTtlSecs
      amdKdsAccessFailure)
  refine orderly_getCachedUrl hlazy (fun row a ha => ?_) amdKdsAccessFailure
  simp only [Lookup.serves, hpath, Except.toOption, Option.bind_some, serveUrl,
    Option.map_eq_some_iff, Option.filter_eq_some_iff, decide_eq_true_eq] at ha
  obtain ⟨rec, ⟨hrec, hurl⟩, rfl⟩ := ha
  cases row with
  | amdKds rec' =>
    cases hrec
    refine ⟨rec, rfl, fun db hrow => ?_, fun now hnow => of_decide_eq_true hnow⟩
    have hrow : db[Keys.amdKds env (Paths.joinHostPath cfg.amdKdsUri path)]? = some _ := hrow
    simp [loadUrl, Fifo.getAmdKds, hrow, Fifo.rowAmdKds, hurl]
  | _ => cases hrec

theorem orderly_nvidiaRim (hlazy : cfg.mode = .lazy) {pathAndQuery path : String}
    (hpath : Paths.canonicalizeNvidiaRim pathAndQuery = .ok path) :
    Orderly env cfg (Lookup.serves env cfg (.nvidiaRim pathAndQuery))
      (Keys.nvidiaRim env (Paths.joinHostPath cfg.nvidiaRimUri path))
      (getNvidiaRimRequest env cfg pathAndQuery) := by
  rw [getNvidiaRimRequest, hpath]
  change Orderly env cfg _ (asBytes (urlKey env .nvidiaRim (Paths.joinHostPath cfg.nvidiaRimUri path)))
    (getCachedUrl env cfg .nvidiaRim (Paths.joinHostPath cfg.nvidiaRimUri path)
      cfg.nvidiaRimCacheTtlSecs nvidiaRimAccessFailure)
  refine orderly_getCachedUrl hlazy (fun row a ha => ?_) nvidiaRimAccessFailure
  simp only [Lookup.serves, hpath, Except.toOption, Option.bind_some, serveUrl,
    Option.map_eq_some_iff, Option.filter_eq_some_iff, decide_eq_true_eq] at ha
  obtain ⟨rec, ⟨hrec, hurl⟩, rfl⟩ := ha
  cases row with
  | nvidiaRim rec' =>
    cases hrec
    refine ⟨rec, rfl, fun db hrow => ?_, fun now hnow => of_decide_eq_true hnow⟩
    have hrow : db[Keys.nvidiaRim env (Paths.joinHostPath cfg.nvidiaRimUri path)]? = some _ := hrow
    simp [loadUrl, Fifo.getNvidiaRim, hrow, Fifo.rowNvidiaRim, hurl]
  | _ => cases hrec

/-- The part of an OCSP lookup under the lock of its key. -/
def lockedOcsp (chrono : Chrono) (cfg : Config) (cacheKey : String) (body : List UInt8) :
    Attempt AmdKdsResponse :=
  (act .unixTime).bind fun now => (act (.getNvidiaOcsp cacheKey)).bind fun
    | none => fetchOcsp chrono cfg cacheKey body
    | some rec =>
      if rec.expiresAt > now then .ret (.ok (served rec))
      else (act (.deleteKey (storeKey cacheKey))).bind fun _ => fetchOcsp chrono cfg cacheKey body

theorem getNvidiaOcsp_lazy (hlazy : cfg.mode = .lazy) {body : List UInt8} {cacheKey : String}
    (hparse : parseRequest env body = .ok cacheKey) :
    getNvidiaOcspRequest env chrono cfg body =
      (act .unixTime).bind fun now => (act (.getNvidiaOcsp cacheKey)).bind fun found =>
        match found.filter fun rec => rec.expiresAt > now with
        | some rec => .ret (.ok (served rec))
        | none => (act (.keyLock (asBytes (storeKey cacheKey)))).andThen fun _ =>
          (act (.recentNon200 (asBytes (storeKey cacheKey)))).bind fun
            | some resp => .ret (.ok resp)
            | none => lockedOcsp chrono cfg cacheKey body := by
  rw [getNvidiaOcspRequest, hparse]
  change (act .unixTime).bind _ = _
  simp only [hlazy, ne_eq, not_true_eq_false, if_false]
  congr 1
  funext now
  congr 1
  funext found
  cases found with
  | none =>
    simp only [Option.filter_none]
    congr 1
    funext _
    congr 1
    funext r
    cases r <;> rfl
  | some rec =>
    by_cases hfresh : rec.expiresAt > now
    · simp only [hfresh, decide_true, if_true, Option.filter_some]
    · simp only [hfresh, decide_false, Bool.false_eq_true, if_false, Option.filter_some]
      congr 1
      funext _
      congr 1
      funext r
      cases r <;> rfl

theorem relayed_storeKey (cacheKey : String) : Relayed (asBytes (storeKey cacheKey)) := by
  refine ⟨.nvidiaOcsp, ?_⟩
  rw [storeKey, asBytes_append]
  exact List.prefix_append _ _

theorem clear_settleOcsp (cacheKey : String) (resp : AmdKdsResponse) :
    Clear (asBytes (storeKey cacheKey))
      (settleOcsp chrono cfg cacheKey (asBytes (storeKey cacheKey)) resp) := by
  unfold settleOcsp
  split
  · exact ⟨only_bind (only_call ⟨rfl, relayed_storeKey cacheKey⟩) fun _ => trivial,
      tidy_final fun _ => ⟨_, rfl, trivial⟩⟩
  refine .plain (only_call ⟨rfl, fun _ => rfl⟩) fun now => ?_
  split
  · exact .done _
  split
  · exact .done _
  · refine .plain (only_call ⟨rfl, fun _ => rfl⟩) fun fetchedAt => ?_
    exact ⟨only_bind (only_call trivial) fun _ => trivial, tidy_final fun _ => ⟨_, rfl, trivial⟩⟩

theorem clear_fetchOcsp (cacheKey : String) (body : List UInt8) :
    Clear (asBytes (storeKey cacheKey)) (fetchOcsp chrono cfg cacheKey body) := by
  refine clear_noted ?_ fun resp => clear_settleOcsp cacheKey resp
  unfold postOcsp
  split
  · trivial
  · exact only_bind (only_call ⟨_, rfl⟩) fun _ => trivial

theorem clear_lockedOcsp (cacheKey : String) (body : List UInt8) :
    Clear (asBytes (storeKey cacheKey)) (lockedOcsp chrono cfg cacheKey body) := by
  refine .plain (only_call ⟨rfl, fun _ => rfl⟩) fun now => ?_
  refine .plain (only_call ⟨rfl, fun _ => rfl⟩) fun found => ?_
  cases found with
  | none => exact clear_fetchOcsp cacheKey body
  | some rec =>
    simp only
    split
    · exact .done _
    · exact .plain (only_call ⟨rfl, fun _ => rfl⟩) fun _ => clear_fetchOcsp cacheKey body

theorem orderly_nvidiaOcsp (hlazy : cfg.mode = .lazy) {body : List UInt8} {cacheKey : String}
    (hparse : parseRequest env body = .ok cacheKey) :
    Orderly env cfg (Lookup.serves env cfg (.nvidiaOcsp body)) (Keys.nvidiaOcsp cacheKey)
      (getNvidiaOcspRequest env chrono cfg body) := by
  rw [getNvidiaOcsp_lazy hlazy hparse]
  refine orderly_bind (only_call ⟨rfl, fun _ => rfl⟩) fun now => ?_
  refine orderly_bind (only_call ⟨rfl, fun _ => rfl⟩) fun found => ?_
  split
  · exact .done _
  refine orderly_lock (.relayed (relayed_storeKey cacheKey) (fun resp => ⟨.ok resp, rfl⟩)
    (clear_lockedOcsp cacheKey body)) fun row a ha => ?_
  cases row with
  | nvidiaOcsp rec =>
    simp only [Lookup.serves, hparse, Except.toOption, Option.some.injEq,
      Option.ite_none_right_eq_some] at ha
    obtain ⟨rfl, rfl⟩ := ha
    refine safe_bind safe_recentNon200 fun past₁ r _ hr => ?_
    cases hr
    refine safe_bind safe_unixTime fun past₂ now _ hnow => ?_
    have hread : ∀ db : Database, db[Keys.nvidiaOcsp rec.cacheKey]? = some (.nvidiaOcsp rec) →
        Ocsp.getNvidiaOcsp ⟨db, 0, 0⟩ rec.cacheKey = some rec := by
      intro db hrow
      simp [Ocsp.getNvidiaOcsp, hrow]
    refine safe_bind (safe_read (fun db => Ocsp.getNvidiaOcsp ⟨db, 0, 0⟩ rec.cacheKey) rfl
      (fun s r s' h => ⟨h.1.1, Prod.ext h.1.2 h.2⟩) hread) fun past₃ found _ hfound => ?_
    cases hfound
    have hlive : rec.expiresAt > now := of_decide_eq_true hnow
    simp only [if_pos hlive]
    rfl
  | _ => cases ha

end Proxied

section Certificates

variable {env : Env} {cfg : Config}

/-- A fill returned a certificate. -/
def Filled (r : Except PccsError (Option PckCertRecord)) : Prop := ∃ rec, r = .ok (some rec)

theorem asks_validatePool (hlazy : cfg.mode = .lazy) (qeid pceid encPpid platformManifest : String)
    (resp : PckCertsResponse) :
    Only Op.Asks (validatePool env cfg qeid pceid encPpid platformManifest resp) := by
  have hnot : cfg.mode ≠ .req := by simp [hlazy]
  simp only [validatePool, processNotAvailable, if_neg hnot]
  trivial

/-- A pool and its certificate are written at once. -/
theorem tidy_publishPckcerts (hlazy : cfg.mode = .lazy) (qeid pceid : String)
    (context : PckFetchContext) (resp : PckCertsResponse) (requested : Option (String × String)) :
    Tidy Filled (publishPckcerts env cfg qeid pceid context resp requested) := by
  have hpass : ∀ {β : Type} {p : Action β}, Only Op.Asks p → Tidy (fun _ => False) p :=
    fun h => quiet_of_only (only_mono (fun _ ho => ho.passing) h)
  refine quiet_andThen (hpass (asks_validatePool hlazy _ _ _ _ _)) fun pool => ?_
  refine quiet_andThen (hpass (only_fetchTcbInfos asks_fetch _)) fun tcbs => ?_
  refine staged_call fun _ r s hs => ?_
  cases hs
  cases r with
  | error e => exact .inl fun e he => by cases he; rfl
  | ok found =>
    cases found with
    | none => exact .inl fun e he => by cases he; rfl
    | some rec => exact .inr ⟨rec, rfl⟩

theorem tidy_fillFromMirror (qeid cpusvn pcesvn pceid : String) (context : PckFetchContext) :
    Tidy Filled (fillFromMirror cfg qeid cpusvn pcesvn pceid context) := by
  have hfetch : Only Op.Asks (fetchPckcertPccs cfg qeid cpusvn pcesvn pceid
      (if context.encPpid = "" then none else some context.encPpid)) := only_parsed (asks_fetch _) _
  refine quiet_andThen (quiet_of_only (only_mono (fun _ ho => ho.passing) hfetch)) fun rec => ?_
  split
  · intro _ r s hs
    cases hs
    cases r with
    | error e => exact .inl ⟨fun e he => by cases he; rfl, trivial⟩
    | ok _ => exact .inr ⟨.ok (some rec), rfl, rec, rfl⟩
  · trivial

theorem tidy_fillPckcert (hlazy : cfg.mode = .lazy) (qeid cpusvn pcesvn pceid : String)
    (context : PckFetchContext) :
    Tidy Filled (fillPckcert env cfg qeid cpusvn pcesvn pceid context) := by
  unfold fillPckcert
  split
  · trivial
  split
  · trivial
  split
  · exact tidy_fillFromMirror qeid cpusvn pcesvn pceid context
  · have hfetch : Only Op.Passing
        (fetchPool env cfg context.encPpid context.platformManifest pceid) :=
      only_fetchPool (fun f => (asks_fetch f).passing) _ _ _
    refine quiet_andThen (quiet_of_only hfetch) fun resp => ?_
    exact tidy_publishPckcerts hlazy qeid pceid context resp _

theorem permitted_fillPckcert (hlazy : cfg.mode = .lazy) (key : List UInt8)
    (qeid cpusvn pcesvn pceid : String) (context : PckFetchContext) :
    Only (Permitted key) (fillPckcert env cfg qeid cpusvn pcesvn pceid context) := by
  have hask : ∀ {β : Type} {p : Action β}, Only Op.Asks p → Only (Permitted key) p :=
    fun h => only_mono (fun _ ho => ho.permitted) h
  unfold fillPckcert
  split
  · trivial
  split
  · trivial
  split
  · refine only_andThen (hask (only_parsed (asks_fetch _) _)) fun rec => ?_
    split
    · exact only_andThen (only_call trivial) fun _ => trivial
    · trivial
  · refine only_andThen (hask (only_fetchPool asks_fetch _ _ _)) fun resp => ?_
    refine only_andThen (hask (asks_validatePool hlazy _ _ _ _ _)) fun pool => ?_
    exact only_andThen (hask (only_fetchTcbInfos asks_fetch _)) fun tcbs => only_call trivial

theorem clear_fillForGet (hlazy : cfg.mode = .lazy) (q : Validate.PckcertQuery) (version : Nat) :
    Clear (Keys.pckcert env q.qeid q.pceid q.cpusvn q.pcesvn) (fillForGet env cfg q version) := by
  unfold fillForGet
  split
  · exact .done _
  split
  · exact .done _
  refine .plain (only_call ⟨rfl, fun _ => rfl⟩) fun current => ?_
  simp only
  split
  · refine ⟨only_call trivial, staged_call fun _ _ _ _ => .inr trivial⟩
  · refine ⟨permitted_note ?_, tidy_note ?_⟩
    · exact only_andThen (permitted_fillPckcert hlazy _ _ _ _ _ _) fun _ => trivial
    refine staged_bind (tidy_fillPckcert hlazy _ _ _ _ _) ?_ fun r _ => ?_
    · rintro _ ⟨rec, rfl⟩
      exact ⟨.ok rec, rfl, rec, rfl⟩
    · cases r <;> trivial

theorem orderly_pckcert (hlazy : cfg.mode = .lazy) (q : Validate.PckcertQuery) (version : Nat) :
    Orderly env cfg (Lookup.serves env cfg (.pckcert q version))
      (Keys.pckcert env q.qeid q.pceid q.cpusvn q.pcesvn) (getUncached env cfg q version) := by
  have hkey : ¬ Relayed (Keys.pckcert env q.qeid q.pceid q.cpusvn q.pcesvn) :=
    not_relayed (.pckcert _ _ _ _) .pckcert rfl (by decide)
  refine orderly_lock (.direct hkey (.plain (only_call ⟨rfl, fun _ => rfl⟩) fun found => ?_))
    fun row a ha => ?_
  · cases found with
    | some rec => exact .done _
    | none => exact clear_fillForGet hlazy q version
  · obtain ⟨hrec, hfor⟩ := Option.filter_eq_some_iff.mp ha
    have hread : ∀ db : Database,
        db[Keys.pckcert env q.qeid q.pceid q.cpusvn q.pcesvn]? = some row →
          getPckcert env db q.qeid q.cpusvn q.pcesvn q.pceid = some a := by
      intro db hrow
      simpa [getPckcert, hrow, hrec, and_assoc] using hfor
    refine safe_bind (safe_read (fun db => getPckcert env db q.qeid q.cpusvn q.pcesvn q.pceid) rfl
      (fun s r s' h => ⟨h.1.1, Prod.ext h.1.2 h.2⟩) hread) fun past found _ hfound => ?_
    cases hfound
    rfl

end Certificates

/-- Every lookup keeps to the order, under its own key; a malformed one does
nothing. -/
theorem orderly_body {env : Env} {chrono : Chrono} {cfg : Config} (hlazy : cfg.mode = .lazy)
    (q : Lookup) : (q.key env cfg = none ∧ Ended (q.body env chrono cfg)) ∨
      ∃ key, q.key env cfg = some key ∧
        Orderly env cfg (q.serves env cfg) key (q.body env chrono cfg) := by
  cases q with
  | amdKds pathAndQuery =>
    cases hpath : Paths.canonicalizeAmdKds pathAndQuery with
    | error e =>
      refine .inl ⟨by simp [Lookup.key, hpath, Except.toOption], .error e, ?_⟩
      simp only [Lookup.body, getAmdKdsRequest, hpath]
      rfl
    | ok path =>
      exact .inr ⟨_, by simp only [Lookup.key, hpath, Except.toOption, Option.map_some],
        orderly_amdKds hlazy hpath⟩
  | nvidiaRim pathAndQuery =>
    cases hpath : Paths.canonicalizeNvidiaRim pathAndQuery with
    | error e =>
      refine .inl ⟨by simp [Lookup.key, hpath, Except.toOption], .error e, ?_⟩
      simp only [Lookup.body, getNvidiaRimRequest, hpath]
      rfl
    | ok path =>
      exact .inr ⟨_, by simp only [Lookup.key, hpath, Except.toOption, Option.map_some],
        orderly_nvidiaRim hlazy hpath⟩
  | nvidiaOcsp body =>
    cases hparse : parseRequest env body with
    | error e =>
      refine .inl ⟨by simp [Lookup.key, hparse, Except.toOption], .error e, ?_⟩
      simp only [Lookup.body, getNvidiaOcspRequest, hparse]
      rfl
    | ok cacheKey =>
      exact .inr ⟨_, by simp only [Lookup.key, hparse, Except.toOption, Option.map_some],
        orderly_nvidiaOcsp hlazy hparse⟩
  | tcb prodType fmspc version update => exact .inr ⟨_, rfl, orderly_tcb prodType fmspc version update⟩
  | identity enclaveId version update => exact .inr ⟨_, rfl, orderly_identity enclaveId version update⟩
  | pckcrl ca version => exact .inr ⟨_, rfl, orderly_pckcrl ca version⟩
  | rootcacrl version => exact .inr ⟨_, rfl, orderly_rootcacrl version⟩
  | crl uri version => exact .inr ⟨_, rfl, orderly_crl uri version⟩
  | pckcert q version => exact .inr ⟨_, rfl, orderly_pckcert hlazy q version⟩

end Pccs.Cache
