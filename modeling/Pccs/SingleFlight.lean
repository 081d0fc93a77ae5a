import Pccs.KeyGate
import Pccs.ReadThrough

/-!
# Single flight

The lookups of LAZY mode run side by side. A lookup that comes to the lock of its
key gets the lock from the lock table, waits until nobody guards it, and is
refused if a failure is remembered for the key. It keeps the guard until it ends
or is dropped, which may happen at any time. Meanwhile other requests write to
the store, pool re-fetches use the lock table for keys of their own, and both
clocks go on.
-/
namespace Pccs.SingleFlight

open Text KeyValue Store Process Ocsp Cache KeyGate Runs

/-- One second, in nanoseconds. -/
def failureTtl : Nat := 1000000000

def recentOutcomesMax : Nat := 1024

def recentBodyMax : Nat := 64 * 1024

/-- A lock table with more entries is pruned. -/
def inflightMax : Nat := 1024

/-- Where a request is with the lock of its key. -/
inductive Hold where
  | free
  | waiting (key : List UInt8) (lock : Nat)
  | guarding (key : List UInt8) (lock : Nat)
deriving DecidableEq

/-- The lock that a request refers to, and its key. -/
def Hold.ref : Hold → Option (List UInt8 × Nat)
  | .free => none
  | .waiting key lock => some (key, lock)
  | .guarding key lock => some (key, lock)

def Hold.guarded : Hold → Option Nat
  | .guarding _ lock => some lock
  | _ => none

def Hold.waits : Hold → Bool
  | .waiting _ _ => true
  | _ => false

structure Thread where
  id : Nat
  request : Lookup
  todo : Attempt request.Reply
  hold : Hold
  /-- A call to the upstream has been sent and not been answered. -/
  calling : Bool

structure Shared where
  db : Database
  unix : Nat
  /-- The monotonic clock, in nanoseconds. -/
  now : Nat
  table : Table (List UInt8)
  memo : Memo (List UInt8) RecentOutcome

/-- What is told of a run. -/
inductive Event where
  | asked (id : Nat) (q : Lookup) (time : Nat)
  | remembered (key : List UInt8) (time : Nat) (o : RecentOutcome)
  | replayed (id : Nat) (q : Lookup) (time : Nat) (o : RecentOutcome)
  | stored (id : Nat) (q : Lookup)

structure State where
  shared : Shared
  threads : List Thread
  /-- The locks that pool re-fetches refer to. -/
  refetches : List Nat
  nextId : Nat
  /-- Newest first. -/
  trace : List Event

/-- Somebody refers to the lock. -/
def State.alive (c : State) (lock : Nat) : Bool :=
  (c.threads.any fun t => t.hold.ref.any fun ref => ref.2 == lock) || c.refetches.contains lock

def State.guarded (c : State) (lock : Nat) : Bool :=
  c.threads.any fun t => t.hold.guarded == some lock

section Memory

def tooLarge : RecentOutcome → Bool
  | .response r => decide (recentBodyMax < r.body.length)
  | .err _ => false

def Shared.recent (s : Shared) (key : List UInt8) :
    Option RecentOutcome × Memo (List UInt8) RecentOutcome :=
  KeyGate.recent failureTtl s.now s.memo key

def Shared.remember (s : Shared) (key : List UInt8) (o : RecentOutcome) :
    Memo (List UInt8) RecentOutcome :=
  if tooLarge o then s.memo
  else KeyGate.remember failureTtl recentOutcomesMax s.now s.memo key o

/-- It is told that an outcome was remembered if it was. -/
def Shared.noted (s : Shared) (key : List UInt8) (o : RecentOutcome) : List Event :=
  if tooLarge o = false ∧ (s.remember key o)[key]?.isSome then [.remembered key s.now o] else []

/-- The outcome that an operation remembers. -/
def remembers : Op → Option (List UInt8 × RecentOutcome)
  | .remember key e => some (key, .err e)
  | .rememberResponse key r => some (key, .response r)
  | _ => none

end Memory

section Steps

variable (env : Env) (chrono : Chrono) (cfg : Cache.Config)

/-- A step of one request, and what is told of it. -/
inductive Move (alive guarded : Nat → Bool) : Shared → Thread → Shared → Thread → List Event → Prop
  /-- It takes the lock of the key from the table. -/
  | enter (s : Shared) (id : Nat) (q : Lookup) (key : List UInt8)
      (k : Except PccsError Unit → Attempt q.Reply) :
      Move alive guarded s ⟨id, q, .op (.keyLock key) k, .free, false⟩
        { s with table := (s.table.enter inflightMax alive key).2 }
        ⟨id, q, .op (.keyLock key) k,
          .waiting key (s.table.enter inflightMax alive key).1, false⟩ []
  | acquire (s : Shared) (id : Nat) (q : Lookup) (p : Attempt q.Reply) (key : List UInt8)
      (lock : Nat) (hfree : guarded lock = false) :
      Move alive guarded s ⟨id, q, p, .waiting key lock, false⟩
        s ⟨id, q, p, .guarding key lock, false⟩ []
  /-- A remembered failure is passed on, and the guard is dropped. -/
  | refuse (s : Shared) (id : Nat) (q : Lookup) (key : List UInt8)
      (k : Except PccsError Unit → Attempt q.Reply) (lock : Nat) (e : PccsError)
      (hrecent : (s.recent key).1 = some (.err e)) :
      Move alive guarded s ⟨id, q, .op (.keyLock key) k, .guarding key lock, false⟩
        { s with memo := (s.recent key).2 } ⟨id, q, k (.error e), .free, false⟩
        [.replayed id q s.now (.err e)]
  | pass (s : Shared) (id : Nat) (q : Lookup) (key : List UInt8)
      (k : Except PccsError Unit → Attempt q.Reply) (lock : Nat)
      (hrecent : ∀ e, (s.recent key).1 ≠ some (.err e)) :
      Move alive guarded s ⟨id, q, .op (.keyLock key) k, .guarding key lock, false⟩
        { s with memo := (s.recent key).2 } ⟨id, q, k (.ok ()), .guarding key lock, false⟩ []
  /-- A remembered status is relayed. -/
  | relay (s : Shared) (id : Nat) (q : Lookup) (key : List UInt8)
      (k : Option AmdKdsResponse → Attempt q.Reply) (hold : Hold) (r : AmdKdsResponse)
      (hrecent : (s.recent key).1 = some (.response r)) :
      Move alive guarded s ⟨id, q, .op (.recentNon200 key) k, hold, false⟩
        { s with memo := (s.recent key).2 } ⟨id, q, k (some r), hold, false⟩
        [.replayed id q s.now (.response r)]
  | proceed (s : Shared) (id : Nat) (q : Lookup) (key : List UInt8)
      (k : Option AmdKdsResponse → Attempt q.Reply) (hold : Hold)
      (hrecent : ∀ r, (s.recent key).1 ≠ some (.response r)) :
      Move alive guarded s ⟨id, q, .op (.recentNon200 key) k, hold, false⟩
        { s with memo := (s.recent key).2 } ⟨id, q, k none, hold, false⟩ []
  | send (s : Shared) (id : Nat) (q : Lookup) (f : Fetch)
      (k : Except PccsError HttpResponse → Attempt q.Reply) (hold : Hold) :
      Move alive guarded s ⟨id, q, .op (.fetch f) k, hold, false⟩
        s ⟨id, q, .op (.fetch f) k, hold, true⟩ [.asked id q s.now]
  | answer (s : Shared) (id : Nat) (q : Lookup) (f : Fetch)
      (k : Except PccsError HttpResponse → Attempt q.Reply) (hold : Hold)
      (r : Except PccsError HttpResponse) :
      Move alive guarded s ⟨id, q, .op (.fetch f) k, hold, true⟩
        s ⟨id, q, k r, hold, false⟩ []
  | remember (s : Shared) (id : Nat) (q : Lookup) (o : Op) (k : o.Res → Attempt q.Reply)
      (hold : Hold) (r : o.Res) (key : List UInt8) (outcome : RecentOutcome)
      (ho : remembers o = some (key, outcome)) :
      Move alive guarded s ⟨id, q, .op o k, hold, false⟩
        { s with memo := s.remember key outcome } ⟨id, q, k r, hold, false⟩ (s.noted key outcome)
  | access (s : Shared) (id : Nat) (q : Lookup) (o : Op) (k : o.Res → Attempt q.Reply)
      (hold : Hold) (r : o.Res) (db : Database) (ho : o.inStore = true)
      (hperform : performAt env cfg (s.db, s.unix) o r (db, s.unix)) :
      Move alive guarded s ⟨id, q, .op o k, hold, false⟩
        { s with db := db } ⟨id, q, k r, hold, false⟩ (if wrote o r then [.stored id q] else [])

inductive Step : State → State → Prop
  | arrive (c : State) (q : Lookup) : Step c
      { c with threads := ⟨c.nextId, q, q.body env chrono cfg, .free, false⟩ :: c.threads
               nextId := c.nextId + 1 }
  | move (c : State) (before after : List Thread) (t t' : Thread) (s : Shared)
      (events : List Event) (hc : c.threads = before ++ t :: after)
      (hm : Move env cfg c.alive c.guarded c.shared t s t' events) : Step c
      { c with shared := s, threads := before ++ t' :: after, trace := events ++ c.trace }
  /-- A request has returned, or it is cancelled. -/
  | leave (c : State) (before after : List Thread) (t : Thread)
      (hc : c.threads = before ++ t :: after) : Step c { c with threads := before ++ after }
  | tick (c : State) (d : Nat) : Step c { c with shared.now := c.shared.now + d }
  | setClock (c : State) (unix : Nat) : Step c { c with shared.unix := unix }
  /-- The other requests write to the store. -/
  | interfere (c : State) (db : Database) : Step c { c with shared.db := db }
  | enterRefetch (c : State) (platform : String) : Step c
      { c with
        shared.table :=
          (c.shared.table.enter inflightMax c.alive (asBytes ("pool-refetch/" ++ platform))).2
        refetches :=
          (c.shared.table.enter inflightMax c.alive (asBytes ("pool-refetch/" ++ platform))).1 ::
            c.refetches }
  | leaveRefetch (c : State) (lock : Nat) : Step c { c with refetches := c.refetches.erase lock }

/-- Nothing is locked, remembered or running yet; the store is arbitrary. -/
def Start (c : State) : Prop :=
  c.shared.table = .empty ∧ c.shared.memo = ∅ ∧ c.threads = [] ∧ c.refetches = [] ∧ c.trace = []

end Steps

/-- How far a request is, for what is remembered. -/
inductive Stage (env : Env) (cfg : Cache.Config) (memo : Memo (List UInt8) RecentOutcome)
    (q : Lookup) : Hold → Bool → Attempt q.Reply → Prop
  | ended (hold : Hold) (hhold : hold.waits = false) (r : Except PccsError q.Reply) :
      Stage env cfg memo q hold false (.ret r)
  | looking {key : List UInt8} {p : Attempt q.Reply} (hkey : q.key env cfg = some key)
      (hp : Orderly env cfg (q.serves env cfg) key p) : Stage env cfg memo q .free false p
  | waiting {key : List UInt8} {k : Except PccsError Unit → Attempt q.Reply} (lock : Nat)
      (hk : Locks env cfg (q.serves env cfg) key k) :
      Stage env cfg memo q (.waiting key lock) false (.op (.keyLock key) k)
  | admitting {key : List UInt8} {k : Except PccsError Unit → Attempt q.Reply} (lock : Nat)
      (hk : Locks env cfg (q.serves env cfg) key k) :
      Stage env cfg memo q (.guarding key lock) false (.op (.keyLock key) k)
  | checking {key : List UInt8} {k : Option AmdKdsResponse → Attempt q.Reply} (lock : Nat)
      (hkey : Relayed key) (hmemo : ∀ time e, memo[key]? ≠ some (time, .err e))
      (hsome : ∀ resp, Ended (k (some resp))) (hnone : Clear key (k none)) :
      Stage env cfg memo q (.guarding key lock) false (.op (.recentNon200 key) k)
  | filling {key : List UInt8} {p : Attempt q.Reply} (lock : Nat) (calling : Bool)
      (hmemo : memo[key]? = none) (hp : Clear key p) :
      Stage env cfg memo q (.guarding key lock) calling p

section Moves

variable {env : Env} {cfg : Cache.Config} {alive guarded : Nat → Bool} {s s' : Shared}
  {t t' : Thread} {events : List Event}

/-- A memo that holds statuses for proxied keys only. -/
def MemoOk (memo : Memo (List UInt8) RecentOutcome) : Prop :=
  ∀ (key : List UInt8) (time : Nat) (r : AmdKdsResponse),
    memo[key]? = some (time, .response r) → Relayed key

/-- Without a failure an admitted request finds nothing remembered for its key,
unless it is one that relays statuses. -/
theorem recent_admitted {key : List UInt8} (hok : MemoOk s.memo)
    (hrecent : ∀ e, (s.recent key).1 ≠ some (.err e)) :
    (¬ Relayed key → (s.recent key).2[key]? = none) ∧
      ∀ time e, (s.recent key).2[key]? ≠ some (time, .err e) := by
  cases hfound : (s.recent key).1 with
  | none =>
    have hnone : (s.recent key).2[key]? = none := recent_none hfound
    exact ⟨fun _ => hnone, fun time e h => by cases hnone.symm.trans h⟩
  | some o =>
    obtain ⟨hsame, had, hget, _⟩ := recent_some hfound
    cases o with
    | err e => exact absurd hfound (hrecent e)
    | response r =>
      refine ⟨fun hkey => absurd (hok key had r hget) hkey, fun time e h => ?_⟩
      have hmemo : (s.recent key).2[key]? = some (had, .response r) := by
        rw [show (s.recent key).2 = s.memo from hsame]
        exact hget
      cases hmemo.symm.trans h

theorem stage_of_ended {memo : Memo (List UInt8) RecentOutcome} {q : Lookup}
    {p : Attempt q.Reply} (h : Ended p) {hold : Hold} (hhold : hold.waits = false) :
    Stage env cfg memo q hold false p := by
  obtain ⟨r, rfl⟩ := h
  exact .ended hold hhold r

theorem stage_acquire {memo : Memo (List UInt8) RecentOutcome} {q : Lookup} {p : Attempt q.Reply}
    {key : List UInt8} {lock : Nat} (h : Stage env cfg memo q (.waiting key lock) false p) :
    Stage env cfg memo q (.guarding key lock) false p := by
  cases h with
  | ended _ hhold r => cases hhold
  | waiting _ hk => exact .admitting _ hk

/-- A step leads a request from stage to stage. -/
theorem move_stage (hm : Move env cfg alive guarded s t s' t' events) (hok : MemoOk s.memo)
    (ht : Stage env cfg s.memo t.request t.hold t.calling t.todo) :
    Stage env cfg s'.memo t'.request t'.hold t'.calling t'.todo := by
  cases hm with
  | enter id q key k =>
    cases ht with
    | looking hkey hp =>
      cases hp with
      | look ho hk => cases ho.1
      | lock hk => exact .waiting _ hk
  | acquire id q p key lock hfree => exact stage_acquire ht
  | refuse id q key k lock e hrecent =>
    cases ht with
    | admitting _ hk => exact stage_of_ended (hk.refused e) rfl
    | filling _ _ _ hp => exact hp.op.1.elim
  | pass id q key k lock hrecent =>
    cases ht with
    | admitting _ hk =>
      obtain ⟨hnone, hnoerr⟩ := recent_admitted hok hrecent
      have hchecked := hk.checked
      generalize k (.ok ()) = p at hchecked
      cases hchecked with
      | direct hkey hp => exact .filling _ _ (hnone hkey) hp
      | relayed hkey hsome hclear => exact .checking _ hkey hnoerr hsome hclear
    | filling _ _ _ hp => exact hp.op.1.elim
  | relay id q key k hold r hrecent =>
    cases ht with
    | looking hkey hp =>
      cases hp with
      | look ho hk => cases ho.1
    | checking _ _ _ hsome _ => exact stage_of_ended (hsome r) rfl
    | filling _ _ _ hp => exact hp.op.1.elim
  | proceed id q key k hold hrecent =>
    cases ht with
    | looking hkey hp =>
      cases hp with
      | look ho hk => cases ho.1
    | checking _ _ hnoerr _ hclear =>
      refine .filling _ _ ?_ hclear
      cases hfound : (s.recent key).1 with
      | none => exact recent_none hfound
      | some o =>
        obtain ⟨_, had, hget, _⟩ := recent_some hfound
        cases o with
        | err e => exact absurd hget (hnoerr had e)
        | response r => exact absurd hfound (hrecent r)
    | filling _ _ _ hp => exact hp.op.1.elim
  | send id q f k hold =>
    cases ht with
    | looking hkey hp =>
      cases hp with
      | look ho hk => cases ho.1
    | filling _ _ hmemo hp => exact .filling _ _ hmemo hp
  | answer id q f k hold r =>
    cases ht with
    | filling _ _ hmemo hp =>
      obtain ⟨hclear, _⟩ | hended := hp.op.2 r
      · exact .filling _ _ hmemo hclear
      · exact stage_of_ended hended rfl
  | remember id q o k hold r key outcome ho =>
    have hfinal : final o r = true := by
      cases o <;> first | rfl | cases ho
    have hstore : o.inStore = false := by
      cases o <;> first | rfl | cases ho
    cases ht with
    | looking hkey hp =>
      cases hp with
      | look hplain hk => cases hstore.symm.trans hplain.1
      | lock hk => cases ho
    | waiting _ hk => cases ho
    | admitting _ hk => cases ho
    | checking _ _ _ _ _ => cases ho
    | filling _ _ hmemo hp =>
      obtain ⟨_, hnot⟩ | hended := hp.op.2 r
      · cases hfinal.symm.trans hnot
      · exact stage_of_ended hended rfl
  | access id q o k hold r db ho hperform =>
    cases ht with
    | looking hkey hp =>
      cases hp with
      | look hplain hk => exact .looking hkey (hk r)
      | lock hk => cases ho
    | waiting _ hk => cases ho
    | admitting _ hk => cases ho
    | checking _ _ _ _ _ => cases ho
    | filling _ _ hmemo hp =>
      obtain ⟨hclear, _⟩ | hended := hp.op.2 r
      · exact .filling _ _ hmemo hclear
      · exact stage_of_ended hended rfl

theorem move_same (hm : Move env cfg alive guarded s t s' t' events) :
    t'.id = t.id ∧ t'.request = t.request ∧ s'.now = s.now := by
  cases hm <;> exact ⟨rfl, rfl, rfl⟩

/-- What a step makes of what is remembered for a key: it leaves it, drops it
because it is old, or remembers something new for the key the request guards. -/
inductive MemoStep (s : Shared) (t : Thread) (memo : Memo (List UInt8) RecentOutcome)
    (events : List Event) (key : List UInt8) : Prop
  | same (h : memo[key]? = s.memo[key]?)
  | dropped (h : memo[key]? = none)
      (hold : ∀ time o, s.memo[key]? = some (time, o) → failureTtl ≤ s.now - time)
  | noted (o : RecentOutcome) (lock : Nat) (he : events = [.remembered key s.now o])
      (h : memo[key]? = some (s.now, o)) (hguard : t.hold = .guarding key lock)
      (hkey : ∀ r, o = .response r → Relayed key)

theorem memoStep_recent (key l : List UInt8) : MemoStep s t (s.recent key).2 events l := by
  obtain hsame | ⟨hnone, _, hold⟩ := recent_get l
  · exact .same hsame
  · exact .dropped hnone hold

/-- Only a request that guards a key remembers for it, and for this key only. -/
theorem stage_remember {memo : Memo (List UInt8) RecentOutcome} {q : Lookup} {o : Op}
    {k : o.Res → Attempt q.Reply} {hold : Hold} {key : List UInt8} {outcome : RecentOutcome}
    (ho : remembers o = some (key, outcome)) (h : Stage env cfg memo q hold false (.op o k)) :
    (∃ lock, hold = .guarding key lock) ∧ ∀ r, outcome = .response r → Relayed key := by
  have hstore : o.inStore = false := by
    cases o <;> first | rfl | cases ho
  cases h with
  | looking hkey hp =>
    cases hp with
    | look hplain hk => cases hstore.symm.trans hplain.1
    | lock hk => cases ho
  | waiting _ hk => cases ho
  | admitting _ hk => cases ho
  | checking _ _ _ _ _ => cases ho
  | @filling guarded _ lock _ hmemo hp =>
    have hpermitted := hp.op.1
    cases o with
    | remember key' e =>
      cases ho
      cases hpermitted
      exact ⟨⟨lock, rfl⟩, fun r h => by cases h⟩
    | rememberResponse key' resp =>
      cases ho
      obtain ⟨rfl, hrelayed⟩ := hpermitted
      exact ⟨⟨lock, rfl⟩, fun _ _ => hrelayed⟩
    | _ => cases ho

/-- The outcome is remembered and told, or nothing is told and the key is left
as it was. -/
theorem noted_cases (s : Shared) (key : List UInt8) (o : RecentOutcome) :
    (s.noted key o = [.remembered key s.now o] ∧ (s.remember key o)[key]? = some (s.now, o)) ∨
      (s.noted key o = [] ∧ (s.remember key o)[key]? = s.memo[key]?) := by
  by_cases hlarge : tooLarge o = true
  · refine .inr ⟨if_neg fun h => ?_, by rw [Shared.remember, if_pos hlarge]⟩
    exact Bool.false_ne_true (h.1.symm.trans hlarge)
  have hmemo : s.remember key o =
      KeyGate.remember failureTtl recentOutcomesMax s.now s.memo key o := if_neg hlarge
  have hself : (s.remember key o)[key]? = some (s.now, o) ∨
      (s.remember key o)[key]? = none ∧ s.memo[key]? = none := by
    rw [hmemo]
    exact remember_self
  obtain hself | ⟨hnone, hbefore⟩ := hself
  · exact .inl ⟨if_pos ⟨Bool.eq_false_iff.mpr hlarge, by rw [hself]; rfl⟩, hself⟩
  · refine .inr ⟨if_neg fun h => ?_, hnone.trans hbefore.symm⟩
    rw [hnone] at h
    cases h.2

theorem remember_other {s : Shared} {key l : List UInt8} {o : RecentOutcome} (hne : key ≠ l) :
    (s.remember key o)[l]? = s.memo[l]? ∨ (s.remember key o)[l]? = none ∧
      ∀ time o', s.memo[l]? = some (time, o') → failureTtl ≤ s.now - time := by
  unfold Shared.remember
  split
  · exact .inl rfl
  · exact remember_get hne

theorem memoStep_remember {key : List UInt8} {o : RecentOutcome} {lock : Nat}
    (hguard : t.hold = .guarding key lock) (hkey : ∀ r, o = .response r → Relayed key)
    (l : List UInt8) : MemoStep s t (s.remember key o) (s.noted key o) l := by
  by_cases hkl : key = l
  · subst hkl
    obtain ⟨he, hself⟩ | ⟨_, hsame⟩ := noted_cases s key o
    · exact .noted o lock he hself hguard hkey
    · exact .same hsame
  · obtain hsame | ⟨hnone, hold⟩ := remember_other (s := s) (o := o) hkl
    · exact .same hsame
    · exact .dropped hnone hold

theorem move_memo (hm : Move env cfg alive guarded s t s' t' events)
    (ht : Stage env cfg s.memo t.request t.hold t.calling t.todo) (key : List UInt8) :
    MemoStep s t s'.memo events key := by
  cases hm with
  | refuse => exact memoStep_recent _ _
  | pass => exact memoStep_recent _ _
  | relay => exact memoStep_recent _ _
  | proceed => exact memoStep_recent _ _
  | remember id q o k hold r key' outcome ho =>
    obtain ⟨⟨lock, hguard⟩, hkey⟩ := stage_remember ho ht
    exact memoStep_remember hguard hkey key
  | _ => exact .same rfl

theorem move_size (hm : Move env cfg alive guarded s t s' t' events)
    (h : s.memo.size ≤ recentOutcomesMax) : s'.memo.size ≤ recentOutcomesMax := by
  cases hm with
  | refuse => exact Nat.le_trans recent_size h
  | pass => exact Nat.le_trans recent_size h
  | relay => exact Nat.le_trans recent_size h
  | proceed => exact Nat.le_trans recent_size h
  | remember id q o k hold r key outcome ho =>
    unfold Shared.remember
    split
    · exact h
    · exact remember_size h
  | _ => exact h

/-- What a step tells, and what it rests on. -/
inductive Told (s s' : Shared) (t : Thread) : List Event → Prop
  | nothing : Told s s' t []
  | asked (key : List UInt8) (lock : Nat) (hguard : t.hold = .guarding key lock)
      (hmemo : s.memo[key]? = none) : Told s s' t [.asked t.id t.request s.now]
  | remembered (key : List UInt8) (o : RecentOutcome) (hmemo : s'.memo[key]? = some (s.now, o)) :
      Told s s' t [.remembered key s.now o]
  | replayed (key : List UInt8) (lock had : Nat) (o : RecentOutcome)
      (hguard : t.hold = .guarding key lock) (hmemo : s.memo[key]? = some (had, o))
      (hyoung : s.now - had < failureTtl) :
      Told s s' t [.replayed t.id t.request s.now o]
  | stored : Told s s' t [.stored t.id t.request]

theorem move_told (hm : Move env cfg alive guarded s t s' t' events)
    (ht : Stage env cfg s.memo t.request t.hold t.calling t.todo) : Told s s' t events := by
  cases hm with
  | refuse id q key k lock e hrecent =>
    obtain ⟨_, had, hget, hyoung⟩ := recent_some hrecent
    exact .replayed key lock had _ rfl hget hyoung
  | relay id q key k hold r hrecent =>
    obtain ⟨_, had, hget, hyoung⟩ := recent_some hrecent
    cases ht with
    | looking hkey hp =>
      cases hp with
      | look ho hk => cases ho.1
    | checking lock _ _ _ _ => exact .replayed key lock had _ rfl hget hyoung
    | filling _ _ _ hp => exact hp.op.1.elim
  | send id q f k hold =>
    cases ht with
    | looking hkey hp =>
      cases hp with
      | look ho hk => cases ho.1
    | filling lock _ hmemo hp => exact .asked _ lock rfl hmemo
  | remember id q o k hold r key outcome ho =>
    obtain ⟨he, hself⟩ | ⟨he, _⟩ := noted_cases s key outcome
    · rw [he]
      exact .remembered key outcome hself
    · rw [he]
      exact .nothing
  | access id q o k hold r db ho hperform =>
    split
    · exact .stored
    · exact .nothing
  | _ => exact .nothing

/-- What a step does with the lock table and the guards. -/
structure LockStep (alive guarded : Nat → Bool) (s s' : Shared) (t t' : Thread) : Prop where
  table : s'.table = s.table ∨ ∃ key, s'.table = (s.table.enter inflightMax alive key).2
  entered : ∀ key lock, t'.hold.ref = some (key, lock) →
    (t.hold.ref = some (key, lock) ∧ s'.table = s.table) ∨ s'.table.locks[key]? = some lock
  guards : ∀ key lock, t'.hold = .guarding key lock → t.hold = .guarding key lock ∨
    t.hold = .waiting key lock ∧ guarded lock = false

theorem move_locks (hm : Move env cfg alive guarded s t s' t' events) :
    LockStep alive guarded s s' t t' := by
  cases hm with
  | enter id q key k =>
    refine ⟨.inr ⟨key, rfl⟩, fun key' lock h => ?_, fun key' lock h => by cases h⟩
    cases h
    exact .inr enter_self
  | acquire id q p key lock hfree =>
    refine ⟨.inl rfl, fun key' lock' h => .inl ⟨h, rfl⟩, fun key' lock' h => ?_⟩
    cases h
    exact .inr ⟨rfl, hfree⟩
  | refuse => exact ⟨.inl rfl, nofun, nofun⟩
  | _ => exact ⟨.inl rfl, fun _ _ h => .inl ⟨h, rfl⟩, fun _ _ h => .inl h⟩

/-- A request comes to the lock of its own key. -/
theorem move_named (hm : Move env cfg alive guarded s t s' t' events)
    (ht : Stage env cfg s.memo t.request t.hold t.calling t.todo) {key : List UInt8} {lock : Nat}
    (h : t'.hold.ref = some (key, lock)) :
    t.hold.ref = some (key, lock) ∨ t'.request.key env cfg = some key := by
  cases hm with
  | enter id q key' k =>
    cases h
    cases ht with
    | looking hkey hp =>
      cases hp with
      | look ho hk => cases ho.1
      | lock hk => exact .inr hkey
  | refuse => cases h
  | _ => exact .inl h

end Moves

end Pccs.SingleFlight
