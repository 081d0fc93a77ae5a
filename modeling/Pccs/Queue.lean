import Pccs.Store

/-!
# The registration queue

The queue is the set of rows under one prefix: an upsert, a delete and a drain of
the rows of one state, each of them under the queue's lock. A run is told by its
history, newest event first. A registration stays open until an event ends it,
and the rows of the queue are exactly those of the open registrations.
-/
namespace Pccs.Queue

open Text KeyValue Store

/-- A call on the queue with what it returned. -/
inductive Event where
  | registered (p : RegisteredPlatform)
  | deleted (p : RegisteredPlatform)
  | took (state : Nat) (out : List RegisteredPlatform)

/-- The platform and level of a row, ignoring case. -/
def SameIdentity (p q : RegisteredPlatform) : Prop :=
  toAsciiLowercase p.qeId = toAsciiLowercase q.qeId ∧
    toAsciiLowercase p.pceId = toAsciiLowercase q.pceId ∧
    toAsciiLowercase p.cpuSvn = toAsciiLowercase q.cpuSvn ∧
    toAsciiLowercase p.pceSvn = toAsciiLowercase q.pceSvn

instance (p q : RegisteredPlatform) : Decidable (SameIdentity p q) :=
  inferInstanceAs (Decidable (_ ∧ _))

/-- The registration of `p` does not outlast the event. -/
def Event.Ends (p : RegisteredPlatform) : Event → Prop
  | .registered q => SameIdentity p q
  | .deleted q => SameIdentity p q
  | .took state _ => p.state = state

/-- The row an event names by its identity. -/
def Event.row : Event → Option RegisteredPlatform
  | .registered p => some p
  | .deleted p => some p
  | .took _ _ => none

/-- What the queue holds of a registration: its identity and its encrypted PPID
are in upper case, the manifest and the state are as they came. -/
def queued (p : RegisteredPlatform) : RegisteredPlatform where
  qeId := toAsciiUppercase p.qeId
  pceId := toAsciiUppercase p.pceId
  cpuSvn := toAsciiUppercase p.cpuSvn
  pceSvn := toAsciiUppercase p.pceSvn
  encPpid := toAsciiUppercase p.encPpid
  platformManifest := p.platformManifest
  state := p.state

section Runs

variable (env : Env)

def pregKey (p : RegisteredPlatform) : List UInt8 :=
  Keys.preg env p.qeId p.pceId p.cpuSvn p.pceSvn

/-- Calls one after the other, as the lock orders them. -/
inductive Run (start : Database) : List Event → Database → Prop
  | start : Run start [] start
  | register {history : List Event} {db : Database} (p : RegisteredPlatform)
      (h : Run start history db) :
      Run start (.registered p :: history) (write db [registerPlatform env p])
  | delete {history : List Event} {db : Database} (p : RegisteredPlatform)
      (h : Run start history db) :
      Run start (.deleted p :: history) (write db [deleteRegistered env p])
  | take {history : List Event} {db : Database} (state : Nat) (h : Run start history db) :
      Run start (.took state (takeRegistered db state).1 :: history)
        (write db (takeRegistered db state).2)

/-- No registration is queued. -/
def Empty (db : Database) : Prop :=
  ∀ (key : List UInt8) (row : Row), db[key]? = some row → ¬ asBytes Keys.pregPrefix <+: key

end Runs

/-- A registration of `p` that no later event has ended. -/
def Open (history : List Event) (p : RegisteredPlatform) : Prop :=
  ∃ later earlier, history = later ++ .registered p :: earlier ∧ ∀ e ∈ later, ¬ e.Ends p

/-- The rows of the queue are those of the open registrations. -/
def Exact (env : Env) (history : List Event) (db : Database) : Prop :=
  ∀ (key : List UInt8) (row : Row),
    db[key]? = some row ∧ asBytes Keys.pregPrefix <+: key ↔
      ∃ p, Open history p ∧ key = pregKey env p ∧ row = .registered (normalizeReg p)

section Rows

variable {env : Env} {db : Database}

theorem normalizeReg_eq (p : RegisteredPlatform) : normalizeReg p = queued p := rfl

theorem pregKey_normalizeReg (p : RegisteredPlatform) :
    pregKey env (normalizeReg p) = pregKey env p := by
  simp [pregKey, normalizeReg, Keys.preg, Keys.make, Keys.joinLower]

theorem pregKey_word (p : RegisteredPlatform) : asBytes Keys.pregPrefix <+: pregKey env p := by
  refine ⟨_, (asBytes_append _ _).symm⟩

theorem pregKey_congr {p q : RegisteredPlatform} (h : SameIdentity p q) :
    pregKey env p = pregKey env q := by
  obtain ⟨h₁, h₂, h₃, h₄⟩ := h
  simp only [pregKey, Keys.preg, Keys.make, Keys.joinLower, List.map_cons, h₁, h₂, h₃, h₄]

theorem registerPlatform_eq (p : RegisteredPlatform) :
    registerPlatform env p = .put (pregKey env p) (.registered (normalizeReg p)) := by
  rw [← pregKey_normalizeReg]
  rfl

theorem get_register (p : RegisteredPlatform) (key : List UInt8) :
    (write db [registerPlatform env p])[key]? =
      if pregKey env p = key then some (.registered (normalizeReg p)) else db[key]? := by
  rw [registerPlatform_eq]
  exact get_insert db _ _ _

theorem get_delete (p : RegisteredPlatform) (key : List UInt8) :
    (write db [deleteRegistered env p])[key]? = if pregKey env p = key then none else db[key]? := by
  have hkey : deleteRegistered env p = .delete (pregKey env p) := by
    rw [← pregKey_normalizeReg]
    rfl
  rw [hkey, write_cons, write_nil, get_apply]
  rfl

/-- A row of the queue that a drain of `state` takes. -/
def Taken (db : Database) (state : Nat) (key : List UInt8) (p : RegisteredPlatform) : Prop :=
  db[key]? = some (.registered p) ∧ asBytes Keys.pregPrefix <+: key ∧ p.state = state

/-- What a drain takes, with the keys. -/
def takenRows (db : Database) (state : Nat) : List (List UInt8 × RegisteredPlatform) :=
  (scanPrefix db (asBytes Keys.pregPrefix)).filterMap fun row =>
    (rowRegistered row.2).filter (·.state = state) |>.map fun p => (row.1, p)

theorem takeRegistered_eq (db : Database) (state : Nat) :
    takeRegistered db state = ((takenRows db state).map Prod.snd,
      (takenRows db state).map fun row => .delete row.1) := rfl

theorem rowRegistered_eq_some {row : Row} {p : RegisteredPlatform} :
    rowRegistered row = some p ↔ row = .registered p := by
  cases row <;> simp [rowRegistered]

theorem mem_takenRows {state : Nat} {key : List UInt8} {p : RegisteredPlatform} :
    (key, p) ∈ takenRows db state ↔ Taken db state key p := by
  unfold takenRows Taken
  rw [List.mem_filterMap]
  constructor
  · rintro ⟨⟨k, row⟩, hmem, h⟩
    obtain ⟨hrow, hword⟩ := (mem_scanPrefix db _ k row).mp hmem
    obtain ⟨q, hq, he⟩ := Option.map_eq_some_iff.mp h
    obtain ⟨hq, hstate⟩ := Option.filter_eq_some_iff.mp hq
    cases he
    cases rowRegistered_eq_some.mp hq
    exact ⟨hrow, hword, by simpa using hstate⟩
  · rintro ⟨hrow, hword, hstate⟩
    refine ⟨(key, .registered p), (mem_scanPrefix db _ _ _).mpr ⟨hrow, hword⟩, ?_⟩
    simp [rowRegistered, hstate]

theorem mem_takeRegistered {state : Nat} {p : RegisteredPlatform} :
    p ∈ (takeRegistered db state).1 ↔ ∃ key, Taken db state key p := by
  rw [takeRegistered_eq]
  simp only [List.mem_map, Prod.exists, exists_eq_right, mem_takenRows]

/-- A drain deletes what it takes and nothing else. -/
theorem get_take (db : Database) (state : Nat) (key : List UInt8) :
    (∃ p, Taken db state key p) ∧ (write db (takeRegistered db state).2)[key]? = none ∨
      (¬ ∃ p, Taken db state key p) ∧ (write db (takeRegistered db state).2)[key]? = db[key]? := by
  rw [takeRegistered_eq]
  obtain ⟨hsame, hnone⟩ | ⟨w, hw, hk, he⟩ :=
    get_write_cases db ((takenRows db state).map fun row => .delete row.1) key
  · refine .inr ⟨fun ⟨p, hp⟩ => ?_, hsame⟩
    exact hnone (.delete key) (List.mem_map.mpr ⟨(key, p), mem_takenRows.mpr hp, rfl⟩) rfl
  · obtain ⟨⟨k, p⟩, hrow, rfl⟩ := List.mem_map.mp hw
    cases hk
    exact .inl ⟨⟨p, mem_takenRows.mp hrow⟩, he⟩

end Rows

section Histories

variable {env : Env} {history : List Event} {db : Database}

theorem open_cons {e : Event} {p : RegisteredPlatform} :
    Open (e :: history) p ↔ e = .registered p ∨ (Open history p ∧ ¬ e.Ends p) := by
  constructor
  · rintro ⟨later, earlier, hsplit, hlater⟩
    cases later with
    | nil =>
      cases hsplit
      exact .inl rfl
    | cons e' later =>
      cases hsplit
      obtain ⟨he, hlater⟩ := List.forall_mem_cons.mp hlater
      exact .inr ⟨⟨later, earlier, rfl, hlater⟩, he⟩
  · rintro (rfl | ⟨⟨later, earlier, rfl, hlater⟩, he⟩)
    · exact ⟨[], history, rfl, by simp⟩
    · exact ⟨e :: later, earlier, rfl, List.forall_mem_cons.mpr ⟨he, hlater⟩⟩

theorem mem_of_open {p : RegisteredPlatform} (h : Open history p) : .registered p ∈ history := by
  obtain ⟨later, earlier, rfl, _⟩ := h
  simp

/-- The digest tells the identities of the history apart. -/
def Distinct (env : Env) (history : List Event) : Prop :=
  ∀ e ∈ history, ∀ e' ∈ history, ∀ p ∈ e.row, ∀ q ∈ e'.row,
    pregKey env p = pregKey env q → SameIdentity p q

theorem Distinct.tail {e : Event} (h : Distinct env (e :: history)) : Distinct env history :=
  fun e₁ h₁ e₂ h₂ => h e₁ (List.mem_cons_of_mem _ h₁) e₂ (List.mem_cons_of_mem _ h₂)

/-- An open registration has the key of an event exactly if it has its identity. -/
theorem key_iff {e : Event} {p q : RegisteredPlatform} (hdist : Distinct env (e :: history))
    (hp : Open history p) (hq : q ∈ e.row) : pregKey env q = pregKey env p ↔ SameIdentity p q := by
  constructor
  · intro h
    exact hdist _ (List.mem_cons_of_mem _ (mem_of_open hp)) e List.mem_cons_self p rfl q hq h.symm
  · exact fun h => (pregKey_congr h).symm

theorem exact_register {q : RegisteredPlatform} (hdist : Distinct env (.registered q :: history))
    (h : Exact env history db) :
    Exact env (.registered q :: history) (write db [registerPlatform env q]) := by
  intro key row
  rw [get_register]
  constructor
  · rintro ⟨hrow, hword⟩
    split at hrow
    · rename_i hkey
      cases hrow
      exact ⟨q, open_cons.mpr (.inl rfl), hkey.symm, rfl⟩
    · rename_i hkey
      obtain ⟨p, hp, rfl, rfl⟩ := (h key row).mp ⟨hrow, hword⟩
      refine ⟨p, open_cons.mpr (.inr ⟨hp, fun hsame => ?_⟩), rfl, rfl⟩
      exact hkey ((key_iff hdist hp rfl).mpr hsame)
  · rintro ⟨p, hp, rfl, rfl⟩
    refine ⟨?_, pregKey_word p⟩
    rcases open_cons.mp hp with he | ⟨hp, hends⟩
    · cases he
      rw [if_pos rfl]
    · have hkey : pregKey env q ≠ pregKey env p := fun he => hends ((key_iff hdist hp rfl).mp he)
      rw [if_neg hkey]
      exact ((h _ _).mpr ⟨p, hp, rfl, rfl⟩).1

theorem exact_delete {q : RegisteredPlatform} (hdist : Distinct env (.deleted q :: history))
    (h : Exact env history db) :
    Exact env (.deleted q :: history) (write db [deleteRegistered env q]) := by
  intro key row
  rw [get_delete]
  constructor
  · rintro ⟨hrow, hword⟩
    split at hrow
    · cases hrow
    · rename_i hkey
      obtain ⟨p, hp, rfl, rfl⟩ := (h key row).mp ⟨hrow, hword⟩
      refine ⟨p, open_cons.mpr (.inr ⟨hp, fun hsame => ?_⟩), rfl, rfl⟩
      exact hkey ((key_iff hdist hp rfl).mpr hsame)
  · rintro ⟨p, hp, rfl, rfl⟩
    refine ⟨?_, pregKey_word p⟩
    rcases open_cons.mp hp with he | ⟨hp, hends⟩
    · cases he
    · have hkey : pregKey env q ≠ pregKey env p := fun he => hends ((key_iff hdist hp rfl).mp he)
      rw [if_neg hkey]
      exact ((h _ _).mpr ⟨p, hp, rfl, rfl⟩).1

theorem exact_take (state : Nat) (h : Exact env history db) :
    Exact env (.took state (takeRegistered db state).1 :: history)
      (write db (takeRegistered db state).2) := by
  intro key row
  constructor
  · rintro ⟨hrow, hword⟩
    obtain ⟨_, hnone⟩ | ⟨hfree, hsame⟩ := get_take db state key
    · rw [hnone] at hrow
      cases hrow
    · rw [hsame] at hrow
      obtain ⟨p, hp, rfl, rfl⟩ := (h key row).mp ⟨hrow, hword⟩
      refine ⟨p, open_cons.mpr (.inr ⟨hp, fun hstate => ?_⟩), rfl, rfl⟩
      exact hfree ⟨normalizeReg p, hrow, hword, hstate⟩
  · rintro ⟨p, hp, rfl, rfl⟩
    refine ⟨?_, pregKey_word p⟩
    rcases open_cons.mp hp with he | ⟨hp, hends⟩
    · cases he
    have hrow := ((h _ _).mpr ⟨p, hp, rfl, rfl⟩).1
    obtain ⟨⟨r, hr, _, hstate⟩, _⟩ | ⟨_, hsame⟩ := get_take db state (pregKey env p)
    · rw [hrow] at hr
      cases hr
      exact absurd hstate hends
    · rw [hsame]
      exact hrow

/-- The rows of the queue are those of the open registrations, after every run. -/
theorem exact_of_run {start : Database} (hstart : Empty start)
    (hrun : Run env start history db) (hdist : Distinct env history) : Exact env history db := by
  induction hrun with
  | start =>
    intro key row
    constructor
    · exact fun h => absurd h.2 (hstart key row h.1)
    · rintro ⟨p, ⟨later, earlier, h, _⟩, _⟩
      simp at h
  | register p _ ih => exact exact_register hdist (ih hdist.tail)
  | delete p _ ih => exact exact_delete hdist (ih hdist.tail)
  | take state _ ih => exact exact_take state (ih hdist.tail)

theorem run_earlier {start : Database} {later : List Event} (h : Run env start (later ++ history) db) :
    ∃ db', Run env start history db' := by
  induction later generalizing db with
  | nil => exact ⟨db, h⟩
  | cons e later ih => cases h <;> exact ih ‹_›

theorem Distinct.earlier {later : List Event} (h : Distinct env (later ++ history)) :
    Distinct env history :=
  fun e₁ h₁ e₂ h₂ => h e₁ (List.mem_append_right _ h₁) e₂ (List.mem_append_right _ h₂)

/-- What a drain in a run returned is what the queue held then. -/
theorem took_of_run {start : Database} {later : List Event} {state : Nat}
    {out : List RegisteredPlatform} (h : Run env start (later ++ .took state out :: history) db) :
    ∃ db', Run env start history db' ∧ out = (takeRegistered db' state).1 := by
  obtain ⟨db', hrun⟩ := run_earlier h
  cases hrun with
  | take state hrun => exact ⟨_, hrun, rfl⟩

/-- A drain returns the open registrations of its state. -/
theorem mem_take_iff (h : Exact env history db) {state : Nat} {r : RegisteredPlatform} :
    r ∈ (takeRegistered db state).1 ↔
      ∃ p, Open history p ∧ p.state = state ∧ r = normalizeReg p := by
  rw [mem_takeRegistered]
  constructor
  · rintro ⟨key, hrow, hword, hstate⟩
    obtain ⟨p, hp, _, he⟩ := (h _ _).mp ⟨hrow, hword⟩
    cases he
    exact ⟨p, hp, hstate, rfl⟩
  · rintro ⟨p, hp, hstate, rfl⟩
    obtain ⟨hrow, hword⟩ := (h (pregKey env p) _).mpr ⟨p, hp, rfl, rfl⟩
    exact ⟨_, hrow, hword, hstate⟩

theorem take_nodup (h : Exact env history db) (state : Nat) : (takeRegistered db state).1.Nodup := by
  have hkey : ∀ row ∈ takenRows db state, row.1 = pregKey env row.2 := by
    rintro ⟨key, r⟩ hmem
    obtain ⟨hrow, hword, _⟩ := mem_takenRows.mp hmem
    obtain ⟨p, _, rfl, he⟩ := (h _ _).mp ⟨hrow, hword⟩
    cases he
    exact (pregKey_normalizeReg p).symm
  have hne : (takenRows db state).Pairwise fun a b => a.1 ≠ b.1 := by
    refine List.Pairwise.filterMap _ ?_ (scanPrefix_sorted db _)
    intro a b hlt x hx y hy he
    obtain ⟨_, _, rfl⟩ := Option.map_eq_some_iff.mp hx
    obtain ⟨_, _, rfl⟩ := Option.map_eq_some_iff.mp hy
    rw [show a.1 = b.1 from he, Std.ReflOrd.compare_self] at hlt
    cases hlt
  rw [takeRegistered_eq, List.Nodup, List.pairwise_map]
  refine List.Pairwise.imp_of_mem ?_ hne
  intro a b ha hb hab he
  exact hab (by rw [hkey a ha, hkey b hb, he])

/-- An event that ends the registration of `p`, with what it must have done. -/
def EndedBy (p : RegisteredPlatform) (e : Event) : Prop :=
  (∃ q, e = .registered q ∧ SameIdentity p q) ∨ (∃ q, e = .deleted q ∧ SameIdentity p q) ∨
    ∃ out, e = .took p.state out ∧ out.count (queued p) = 1

/-- The first event that ends a registration, if there is one. -/
theorem first_end (later : List Event) (p : RegisteredPlatform) :
    (∀ e ∈ later, ¬ e.Ends p) ∨
      ∃ after e mid, later = after ++ e :: mid ∧ e.Ends p ∧ ∀ e' ∈ mid, ¬ e'.Ends p := by
  induction later with
  | nil => exact .inl (by simp)
  | cons e later ih =>
    obtain hnone | ⟨after, e', mid, rfl, hends, hmid⟩ := ih
    · by_cases he : e.Ends p
      · exact .inr ⟨[], e, later, rfl, he, hnone⟩
      · exact .inl (List.forall_mem_cons.mpr ⟨he, hnone⟩)
    · exact .inr ⟨e :: after, e', mid, rfl, hends, hmid⟩

theorem SameIdentity.symm {p q : RegisteredPlatform} (h : SameIdentity p q) : SameIdentity q p := by
  obtain ⟨h₁, h₂, h₃, h₄⟩ := h
  exact ⟨h₁.symm, h₂.symm, h₃.symm, h₄.symm⟩

/-- Of two registrations of one identity, the open one is not the older one, and
an ended one is not open. -/
theorem open_after_end {after mid earlier : List Event} {e : Event} {p q : RegisteredPlatform}
    (he : e.Ends p) (hmid : ∀ e' ∈ mid, ¬ e'.Ends p) (hsame : SameIdentity p q)
    (hq : Open (after ++ e :: (mid ++ .registered p :: earlier)) q) :
    .registered q ∈ after ++ [e] := by
  obtain ⟨later, older, hsplit, hlater⟩ := hq
  induction after generalizing later with
  | nil =>
    cases later with
    | nil =>
      cases hsplit
      simp
    | cons e' later =>
      obtain ⟨rfl, htail⟩ := List.cons.inj hsplit
      obtain ⟨hends, hlater⟩ := List.forall_mem_cons.mp hlater
      -- `q` is registered at or before the event that ended `p`
      obtain ⟨a, hl, hp⟩ | ⟨c, hm, hq⟩ := List.append_eq_append_iff.mp htail
      · cases a with
        | nil =>
          cases hp
          exact absurd he hends
        | cons x a =>
          cases hp
          exact absurd hsame.symm (hlater (.registered p) (by simp [hl]))
      · cases c with
        | nil =>
          cases hq
          exact absurd he hends
        | cons x c =>
          cases hq
          exact absurd hsame (hmid (.registered q) (by simp [hm]))
  | cons e' after ih =>
    cases later with
    | nil =>
      cases hsplit
      simp
    | cons e'' later =>
      obtain ⟨rfl, htail⟩ := List.cons.inj hsplit
      exact List.mem_cons_of_mem _ (ih later htail (List.forall_mem_cons.mp hlater).2)

/-- Every registration is queued as it was made, or was replaced, deleted or taken
by the first event that ends it; a drain takes the open registrations of its
state, each of them once, and leaves every other row alone. -/
theorem no_loss_no_duplicate {start : Database} (hstart : Empty start)
    (hrun : Run env start history db) (hdist : Distinct env history) :
    (∀ later p earlier, history = later ++ .registered p :: earlier →
      ((∀ e ∈ later, ¬ e.Ends p) ∧ db[pregKey env p]? = some (.registered (queued p))) ∨
      ∃ after e mid, later = after ++ e :: mid ∧ (∀ e' ∈ mid, ¬ e'.Ends p) ∧ EndedBy p e ∧
        ∀ row, db[pregKey env p]? = some row → ∃ q, .registered q ∈ after ++ [e] ∧
          SameIdentity p q ∧ row = .registered (queued q)) ∧
    (∀ later state out earlier, history = later ++ .took state out :: earlier →
      out.Nodup ∧ ∀ r, r ∈ out ↔ ∃ p, Open earlier p ∧ p.state = state ∧ r = queued p) ∧
    ∀ (store : Database) (state : Nat) (key : List UInt8) (r : RegisteredPlatform),
      store[key]? = some (.registered r) → r.state ≠ state →
      (write store (takeRegistered store state).2)[key]? = some (.registered r) := by
  have hexact := exact_of_run hstart hrun hdist
  refine ⟨?_, ?_, ?_⟩
  · rintro later p earlier rfl
    obtain hnone | ⟨after, e, mid, rfl, he, hmid⟩ := first_end later p
    · exact .inl ⟨hnone, ((hexact _ _).mpr ⟨p, ⟨later, earlier, rfl, hnone⟩, rfl, rfl⟩).1⟩
    · refine .inr ⟨after, e, mid, rfl, hmid, ?_, ?_⟩
      · cases e with
        | registered q => exact .inl ⟨q, rfl, he⟩
        | deleted q => exact .inr (.inl ⟨q, rfl, he⟩)
        | took state out =>
          cases he
          simp only [List.append_assoc, List.cons_append] at hrun hdist
          obtain ⟨db', hrun', rfl⟩ := took_of_run hrun
          have hexact' := exact_of_run hstart hrun' hdist.earlier.tail
          have hmem := (mem_take_iff hexact').mpr ⟨p, ⟨mid, earlier, rfl, hmid⟩, rfl, rfl⟩
          have hcount := List.nodup_iff_count.mp (take_nodup hexact' p.state) (normalizeReg p)
          have hpos := List.count_pos_iff.mpr hmem
          have hone : (takeRegistered db' p.state).1.count (queued p) = 1 := by
            rw [← normalizeReg_eq]
            omega
          exact .inr (.inr ⟨_, rfl, hone⟩)
      · intro row hrow
        obtain ⟨q, hq, hkey, rfl⟩ := (hexact _ _).mp ⟨hrow, pregKey_word p⟩
        have hsame := hdist (.registered p) (by simp) _ (mem_of_open hq) p rfl q rfl hkey
        simp only [List.append_assoc, List.cons_append] at hq
        exact ⟨q, open_after_end he hmid hsame hq, hsame, rfl⟩
  · rintro later state out earlier rfl
    obtain ⟨db', hrun', rfl⟩ := took_of_run hrun
    have hexact' := exact_of_run hstart hrun' hdist.earlier.tail
    exact ⟨take_nodup hexact' state, fun r => mem_take_iff hexact'⟩
  · intro store state key r hr hstate
    obtain ⟨⟨q, hq, _, hqs⟩, _⟩ | ⟨_, hsame⟩ := get_take store state key
    · rw [hr] at hq
      cases hq
      exact absurd hqs hstate
    · rw [hsame]
      exact hr

def firstRow : RegisteredPlatform := ⟨"aa", "00", "01", "02", "ab", "cd", 0⟩

def replacingRow : RegisteredPlatform := ⟨"Aa", "00", "01", "02", "ef", "0d", 0⟩

def otherRow : RegisteredPlatform := ⟨"bb", "00", "01", "02", "ab", "cd", 1⟩

def deletedRow : RegisteredPlatform := ⟨"cc", "00", "01", "02", "ab", "cd", 0⟩

def sampleHistory : List Event :=
  [.deleted deletedRow, .registered deletedRow, .registered otherRow, .registered replacingRow,
    .registered firstRow]

def sampleQueue : Database :=
  [registerPlatform Keys.plainEnv firstRow, registerPlatform Keys.plainEnv replacingRow,
    registerPlatform Keys.plainEnv otherRow, registerPlatform Keys.plainEnv deletedRow,
    deleteRegistered Keys.plainEnv deletedRow].foldl (fun db w => write db [w]) ∅

theorem open_sampleHistory (p : RegisteredPlatform) :
    Open sampleHistory p ↔ p = otherRow ∨ p = replacingRow := by
  have hnone : ¬ Open [] p := by
    rintro ⟨later, earlier, hsplit, _⟩
    simp at hsplit
  simp only [sampleHistory, open_cons, hnone, Event.Ends, false_and, or_false,
    Event.registered.injEq, reduceCtorEq, false_or]
  constructor
  · rintro ⟨rfl | ⟨rfl | ⟨rfl | ⟨rfl, hkept⟩, _⟩, _⟩, hkept⟩
    · exact absurd (by decide) hkept
    · exact .inl rfl
    · exact .inr rfl
    · exact absurd (by decide) hkept
  · rintro (rfl | rfl)
    · decide +kernel
    · decide +kernel

/-- A registration that was replaced, one of another state and one that was
deleted: a drain takes the replacement only, and the other state stays. -/
theorem no_loss_no_duplicate_sample :
    (takeRegistered sampleQueue 0).1 = [⟨"AA", "00", "01", "02", "EF", "0d", 0⟩] ∧
      (write sampleQueue (takeRegistered sampleQueue 0).2)[pregKey Keys.plainEnv otherRow]? =
        some (.registered ⟨"BB", "00", "01", "02", "AB", "cd", 1⟩) := by
  have hstart : Empty (∅ : Database) := fun key row h => by simp at h
  have hrun : Run Keys.plainEnv ∅ (.took 0 (takeRegistered sampleQueue 0).1 :: sampleHistory) _ :=
    .take 0 (.delete deletedRow (.register deletedRow (.register otherRow
      (.register replacingRow (.register firstRow .start)))))
  have hrows : ∀ p ∈ [firstRow, replacingRow, otherRow, deletedRow],
      ∀ q ∈ [firstRow, replacingRow, otherRow, deletedRow],
        pregKey Keys.plainEnv p = pregKey Keys.plainEnv q → SameIdentity p q := by decide +kernel
  have hlisted : ∀ e ∈ Event.took 0 (takeRegistered sampleQueue 0).1 :: sampleHistory,
      ∀ p ∈ e.row, p ∈ [firstRow, replacingRow, otherRow, deletedRow] := by
    simp [sampleHistory, Event.row]
  have hdist : Distinct Keys.plainEnv (.took 0 (takeRegistered sampleQueue 0).1 :: sampleHistory) :=
    fun e he e' he' p hp q hq => hrows p (hlisted e he p hp) q (hlisted e' he' q hq)
  obtain ⟨hkept, htaken, hother⟩ := no_loss_no_duplicate hstart hrun hdist
  constructor
  · obtain ⟨hnodup, hmem⟩ := htaken [] 0 _ sampleHistory rfl
    refine List.perm_singleton.mp ((List.perm_ext_iff_of_nodup hnodup
      (List.nodup_cons.mpr ⟨by simp, .nil⟩)).mpr fun r => (hmem r).trans ?_)
    simp only [open_sampleHistory, List.mem_singleton]
    constructor
    · rintro ⟨p, rfl | rfl, hstate, rfl⟩
      · exact absurd hstate (by decide)
      · decide +kernel
    · rintro rfl
      exact ⟨replacingRow, .inr rfl, rfl, by decide +kernel⟩
  · -- nothing after it ends the registration of the other state
    have hnone : ∀ e ∈ [Event.took 0 (takeRegistered sampleQueue 0).1, .deleted deletedRow,
        .registered deletedRow], ¬ e.Ends otherRow :=
      List.forall_mem_cons.mpr ⟨(by decide : ¬ otherRow.state = 0), List.forall_mem_cons.mpr
        ⟨(by decide : ¬ SameIdentity otherRow deletedRow), List.forall_mem_singleton.mpr
          (by decide : ¬ SameIdentity otherRow deletedRow)⟩⟩
    obtain ⟨_, hrow⟩ | ⟨after, e, mid, hsplit, _, hend, _⟩ :=
      hkept [_, _, _] otherRow [.registered replacingRow, .registered firstRow] rfl
    · exact hrow
    · refine absurd ?_ (hnone e (hsplit ▸ by simp))
      obtain ⟨q, rfl, hq⟩ | ⟨q, rfl, hq⟩ | ⟨out, rfl, _⟩ := hend
      · exact hq
      · exact hq
      · rfl

end Histories

end Pccs.Queue
