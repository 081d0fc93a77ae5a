import Pccs.Coherence
import Pccs.SingleFlight

/-!
# Pool re-fetches

The re-fetches of pools for new raw levels, side by side. Each goes through the
process of the cache: it reads its pool, takes the lock of its platform, reads
the pool again, asks whether a fetch is due, marks the platform and fetches. The
mark is taken from the clock before the marks are locked, so it is a step of its
own. A request may be cancelled at any time, and the clock goes on between all
steps.
-/
namespace Pccs.Refetch

open Text KeyValue Store Process Cache Coherence KeyGate Runs
open SingleFlight (Hold inflightMax)

/-- More marks than this are pruned. -/
def refetchMarksMax : Nat := 1024

structure Thread where
  qeid : String
  pceid : String
  todo : Action (Option PckCertRecord)
  hold : Hold
  /-- The time that its mark was taken at. -/
  stamp : Nat
  /-- The time was taken and the mark is not set yet. -/
  stamped : Bool
  /-- A call to the upstream has been sent and not been answered. -/
  calling : Bool

def Thread.platform (t : Thread) : String := platformKey t.qeid t.pceid

structure Shared where
  db : Database
  /-- The monotonic clock, in nanoseconds. -/
  now : Nat
  table : Table (List UInt8)
  marks : Marks String

/-- A pool fetch that was started, and the mark that was set for it. -/
structure PoolFetch where
  qeid : String
  pceid : String
  marked : Nat
  started : Nat

def PoolFetch.platform (e : PoolFetch) : String := platformKey e.qeid e.pceid

structure State where
  shared : Shared
  threads : List Thread
  /-- The locks that other requests refer to. -/
  others : List Nat
  /-- Newest first. -/
  log : List PoolFetch

/-- Somebody refers to the lock. -/
def State.alive (c : State) (lock : Nat) : Bool :=
  (c.threads.any fun t => t.hold.ref.any fun ref => ref.2 == lock) || c.others.contains lock

def State.guarded (c : State) (lock : Nat) : Bool :=
  c.threads.any fun t => t.hold.guarded == some lock

def poolFetch : Op → Bool
  | .fetch (.pckcertsIntel _ _) => true
  | .fetch (.pckcertsIntelManifest _ _) => true
  | _ => false

/-- Neither the lock nor the throttle is touched. -/
def quiet : Op → Bool
  | .keyLock _ => false
  | .refetchDue _ => false
  | .markRefetch _ => false
  | _ => true

def isFetch : Op → Bool
  | .fetch _ => true
  | _ => false

def lockKey (platform : String) : List UInt8 := asBytes ("pool-refetch/" ++ platform)

/-- A pool fetch of this request is in progress. -/
def Thread.Fetches (t : Thread) : Prop :=
  t.calling = true ∧ ∃ f k, t.todo = .op (.fetch f) k ∧ poolFetch (.fetch f) = true

section Steps

variable (env : Env) (cfg : Cache.Config) (interval : Nat)

/-- A step of one request, and the pool fetch it starts. -/
inductive Move (alive guarded : Nat → Bool) (s : Shared) (t : Thread) :
    Shared → Thread → List PoolFetch → Prop
  | access {o : Op} {k : o.Res → Action (Option PckCertRecord)} {r : o.Res} {db : Database}
      (ht : t.todo = .op o k) (ho : quiet o = true ∧ isFetch o = false)
      (h : perform env cfg s.db o r db) :
      Move alive guarded s t { s with db := db } { t with todo := k r } []
  | enter {key : List UInt8} {k : Except PccsError Unit → Action (Option PckCertRecord)}
      (ht : t.todo = .op (.keyLock key) k) (hfree : t.hold = .free) :
      Move alive guarded s t { s with table := (s.table.enter inflightMax alive key).2 }
        { t with hold := .waiting key (s.table.enter inflightMax alive key).1 } []
  | acquire {key : List UInt8} {lock : Nat} (hwait : t.hold = .waiting key lock)
      (hfree : guarded lock = false) :
      Move alive guarded s t s { t with hold := .guarding key lock } []
  /-- A failure is remembered for the key, and the guard is dropped. -/
  | refuse {key : List UInt8} {k : Except PccsError Unit → Action (Option PckCertRecord)}
      {lock : Nat} (e : PccsError) (ht : t.todo = .op (.keyLock key) k)
      (hguard : t.hold = .guarding key lock) :
      Move alive guarded s t s { t with todo := k (.error e), hold := .free } []
  | pass {key : List UInt8} {k : Except PccsError Unit → Action (Option PckCertRecord)}
      {lock : Nat} (ht : t.todo = .op (.keyLock key) k) (hguard : t.hold = .guarding key lock) :
      Move alive guarded s t s { t with todo := k (.ok ()) } []
  | due {platform : String} {k : Bool → Action (Option PckCertRecord)}
      (ht : t.todo = .op (.refetchDue platform) k) :
      Move alive guarded s t s { t with todo := k (due interval s.now s.marks platform) } []
  | stamp {platform : String} {k : Unit → Action (Option PckCertRecord)}
      (ht : t.todo = .op (.markRefetch platform) k) (hnew : t.stamped = false) :
      Move alive guarded s t s { t with stamp := s.now, stamped := true } []
  | mark {platform : String} {k : Unit → Action (Option PckCertRecord)}
      (ht : t.todo = .op (.markRefetch platform) k) (hstamped : t.stamped = true) :
      Move alive guarded s t
        { s with marks := mark refetchMarksMax interval s.now s.marks platform t.stamp }
        { t with todo := k (), stamped := false } []
  | send {f : Fetch} {k : Except PccsError HttpResponse → Action (Option PckCertRecord)}
      (ht : t.todo = .op (.fetch f) k) (hidle : t.calling = false) :
      Move alive guarded s t s { t with calling := true }
        (if poolFetch (.fetch f) then [⟨t.qeid, t.pceid, t.stamp, s.now⟩] else [])
  | answer {f : Fetch} {k : Except PccsError HttpResponse → Action (Option PckCertRecord)}
      (r : Except PccsError HttpResponse) (ht : t.todo = .op (.fetch f) k)
      (hcalling : t.calling = true) :
      Move alive guarded s t s { t with todo := k r, calling := false } []

inductive Step : State → State → Prop
  | arrive (c : State) (qeid pceid cpusvn pcesvn : String) (version : Nat) : Step c
      { c with threads :=
          ⟨qeid, pceid, refetchPoolForNewRawTcb env cfg qeid pceid cpusvn pcesvn version, .free, 0,
            false, false⟩ :: c.threads }
  | move (c : State) (before after : List Thread) (t t' : Thread) (s : Shared)
      (started : List PoolFetch) (hc : c.threads = before ++ t :: after)
      (hm : Move env cfg interval c.alive c.guarded c.shared t s t' started) : Step c
      { c with shared := s, threads := before ++ t' :: after, log := started ++ c.log }
  /-- A request has returned, or it is cancelled. -/
  | leave (c : State) (before after : List Thread) (t : Thread)
      (hc : c.threads = before ++ t :: after) : Step c { c with threads := before ++ after }
  | tick (c : State) (d : Nat) : Step c { c with shared.now := c.shared.now + d }
  /-- The other requests write to the store. -/
  | interfere (c : State) (db : Database) : Step c { c with shared.db := db }
  | enterOther (c : State) (key : List UInt8) : Step c
      { c with
        shared.table := (c.shared.table.enter inflightMax c.alive key).2
        others := (c.shared.table.enter inflightMax c.alive key).1 :: c.others }
  | leaveOther (c : State) (lock : Nat) : Step c { c with others := c.others.erase lock }

/-- Nothing is locked, marked or running yet; the store is arbitrary. -/
def Start (c : State) : Prop :=
  c.shared.table = .empty ∧ c.shared.marks = ∅ ∧ c.threads = [] ∧ c.others = [] ∧ c.log = []

end Steps

section Discipline

/-- After the mark: at most so many pool fetches. -/
structure Fetching (n : Nat) (p : Action (Option PckCertRecord)) : Prop where
  atMost : AtMost poolFetch n p
  unlocked : Only (fun o => quiet o = true) p

/-- Under the lock of the platform, before the throttle. -/
inductive Locked (platform : String) : Action (Option PckCertRecord) → Prop
  | ended (r : Option PckCertRecord) : Locked platform (.ret r)
  | read {o : Op} {k : o.Res → Action (Option PckCertRecord)}
      (ho : quiet o = true ∧ isFetch o = false) (hk : ∀ r, Locked platform (k r)) :
      Locked platform (.op o k)
  | check {k : Bool → Action (Option PckCertRecord)}
      {k' : Unit → Action (Option PckCertRecord)} (hlate : Ended (k false))
      (hdue : k true = .op (.markRefetch platform) k') (hk : Fetching 1 (k' ())) :
      Locked platform (.op (.refetchDue platform) k)

/-- Before the lock. The pool that is read is the platform's, in its own case. -/
inductive Asking (qeid pceid : String) : Action (Option PckCertRecord) → Prop
  | ended (r : Option PckCertRecord) : Asking qeid pceid (.ret r)
  | read {k : Option PlatformPool → Action (Option PckCertRecord)} (hnone : Asking qeid pceid (k none))
      (hsome : ∀ pool : PlatformPool, Same pool.qeId qeid → Same pool.pceId pceid →
        Asking qeid pceid (k (some pool))) :
      Asking qeid pceid (.op (.getPlatformPool qeid pceid) k)
  | lock {k : Except PccsError Unit → Action (Option PckCertRecord)}
      (hrefused : ∀ e, Ended (k (.error e)))
      (hpassed : Locked (platformKey qeid pceid) (k (.ok ()))) :
      Asking qeid pceid (.op (.keyLock (lockKey (platformKey qeid pceid))) k)

variable {env : Env} {cfg : Cache.Config}

theorem platformKey_congr {qeid pceid qeid' pceid' : String} (hq : Same qeid qeid')
    (hp : Same pceid pceid') : platformKey qeid pceid = platformKey qeid' pceid' := by
  have hupper : ∀ a b : String, Same a b → toAsciiUppercase a = toAsciiUppercase b := by
    intro a b h
    rw [← toAsciiUppercase_lowercase a, ← toAsciiUppercase_lowercase b, h]
  rw [platformKey, platformKey, hupper _ _ hq, hupper _ _ hp]

theorem only_publishPckcerts (hlazy : cfg.mode = .lazy) (qeid pceid : String)
    (context : PckFetchContext) (resp : PckCertsResponse) (requested : Option (String × String)) :
    Only (fun o => quiet o = true ∧ poolFetch o = false)
      (publishPckcerts env cfg qeid pceid context resp requested) := by
  rw [publishPckcerts, validatePool_lazy hlazy]
  refine only_andThen trivial fun pool => only_andThen ?_ fun tcbs => only_call ⟨rfl, rfl⟩
  refine only_bind (only_collect (fun w => ?_) _) fun _ => trivial
  refine only_bind ?_ fun _ => trivial
  unfold fetchTcb
  split
  · trivial
  · refine only_andThen ?_ fun _ => trivial
    unfold Cache.get
    split
    · exact only_call ⟨rfl, rfl⟩
    · trivial

theorem fetching_refetch (hlazy : cfg.mode = .lazy) (pool : PlatformPool)
    (cpusvn pcesvn : String) :
    Fetching 1 ((within .elapsed id (refetch env cfg pool cpusvn pcesvn)).bind fun
      | some (.ok rec) => .ret rec
      | _ => .ret none) := by
  have hpublish : ∀ (context : PckFetchContext) (resp : PckCertsResponse),
      Only (fun o => quiet o = true ∧ poolFetch o = false)
        (publishPckcerts env cfg pool.qeId pool.pceId context resp (some (cpusvn, pcesvn))) :=
    fun context resp => only_publishPckcerts hlazy _ _ context resp _
  have hreturn : ∀ (n : Nat) (r : Option (Except PccsError (Option PckCertRecord))),
      Fetching n (match r with
        | some (.ok rec) => .ret rec
        | _ => .ret none) := by
    intro n r
    split <;> exact ⟨trivial, trivial⟩
  constructor
  · have hrefetch : AtMost poolFetch (1 + 0) (refetch env cfg pool cpusvn pcesvn) :=
      atMost_andThen (atMost_fetchPool _ _ _) fun resp =>
        atMost_zero (only_mono (fun _ ho => ho.2) (hpublish _ resp))
    exact atMost_bind (atMost_within rfl hrefetch) fun r => (hreturn 0 r).atMost
  · have hrefetch : Only (fun o => quiet o = true) (refetch env cfg pool cpusvn pcesvn) :=
      only_andThen (only_fetchPool (fun _ => rfl) _ _ _) fun resp =>
        only_mono (fun _ ho => ho.1) (hpublish _ resp)
    exact only_bind (only_within rfl hrefetch) fun r => (hreturn 0 r).unlocked

theorem locked_refetchLocked (hlazy : cfg.mode = .lazy) (qeid pceid cpusvn pcesvn platform : String) :
    Locked platform (refetchLocked env cfg qeid pceid cpusvn pcesvn platform) := by
  refine .read ⟨rfl, rfl⟩ fun again => ?_
  simp only [bind_ret]
  cases refetchable again cpusvn pcesvn with
  | none => exact .ended none
  | some pool => exact .check ⟨none, rfl⟩ rfl (fetching_refetch hlazy pool cpusvn pcesvn)

theorem asking_refetchPoolForNewRawTcb (qeid pceid cpusvn pcesvn : String) (version : Nat) :
    Asking qeid pceid (refetchPoolForNewRawTcb env cfg qeid pceid cpusvn pcesvn version) := by
  unfold refetchPoolForNewRawTcb
  split
  · rename_i hgate
    have hlazy : cfg.mode = .lazy := by
      simp only [refetchGate, Bool.and_eq_true, beq_iff_eq] at hgate
      exact hgate.1.1.1.1.2
    refine .read (.ended none) fun pool hq hp => ?_
    simp only [bind_ret]
    cases hfound : refetchable (some pool) cpusvn pcesvn with
    | none => exact .ended none
    | some found =>
      cases (Option.filter_eq_some_iff.mp hfound).1
      -- the lock is named after the stored platform, which is the requested one
      have hkey := platformKey_congr hq hp
      simp only
      generalize platformKey pool.qeId pool.pceId = platform at hkey ⊢
      subst hkey
      refine .lock ?_ ?_
      · exact fun e => ⟨none, rfl⟩
      · exact locked_refetchLocked hlazy qeid pceid cpusvn pcesvn (platformKey qeid pceid)
  · exact .ended none

end Discipline

section Stages

/-- The intervals of all fetches of the platform are over by then. -/
def Over (interval : Nat) (log : List PoolFetch) (platform : String) (time : Nat) : Prop :=
  ∀ e ∈ log, e.platform = platform → e.marked + interval ≤ time

/-- How far a request is. From the lock on it guards its platform. -/
inductive Stage (interval : Nat) (s : Shared) (log : List PoolFetch) (t : Thread) : Prop
  | ended (r : Option PckCertRecord) (ht : t.todo = .ret r) (hhold : t.hold.waits = false)
  | asking (hp : Asking t.qeid t.pceid t.todo) (hfree : t.hold = .free) (hidle : t.calling = false)
      (hnew : t.stamped = false)
  | locking {k : Except PccsError Unit → Action (Option PckCertRecord)} {lock : Nat}
      (ht : t.todo = .op (.keyLock (lockKey t.platform)) k) (hrefused : ∀ e, Ended (k (.error e)))
      (hpassed : Locked t.platform (k (.ok ())))
      (href : t.hold.ref = some (lockKey t.platform, lock)) (hidle : t.calling = false)
      (hnew : t.stamped = false)
  | locked {lock : Nat} (hp : Locked t.platform t.todo)
      (hguard : t.hold = .guarding (lockKey t.platform) lock) (hidle : t.calling = false)
      (hnew : t.stamped = false)
  | marking {lock : Nat} {k : Unit → Action (Option PckCertRecord)}
      (ht : t.todo = .op (.markRefetch t.platform) k) (hk : Fetching 1 (k ()))
      (hguard : t.hold = .guarding (lockKey t.platform) lock) (hidle : t.calling = false)
      (hnew : t.stamped = false) (hover : Over interval log t.platform s.now)
  | stamped {lock : Nat} {k : Unit → Action (Option PckCertRecord)}
      (ht : t.todo = .op (.markRefetch t.platform) k) (hk : Fetching 1 (k ()))
      (hguard : t.hold = .guarding (lockKey t.platform) lock) (hidle : t.calling = false)
      (hstamped : t.stamped = true) (hpast : t.stamp ≤ s.now)
      (hover : Over interval log t.platform t.stamp)
  | fetching {lock : Nat} (hp : Fetching 1 t.todo)
      (hguard : t.hold = .guarding (lockKey t.platform) lock)
      (hidle : t.calling = true → ∃ f k, t.todo = .op (.fetch f) k ∧ poolFetch (.fetch f) = false)
      (hpast : t.stamp ≤ s.now) (hover : Over interval log t.platform t.stamp)
      (hstands : Stands interval s.now s.marks t.platform t.stamp)
  | calling {lock : Nat} {f : Fetch} {k : Except PccsError HttpResponse → Action (Option PckCertRecord)}
      (ht : t.todo = .op (.fetch f) k) (hk : ∀ r, Fetching 0 (k r))
      (hguard : t.hold = .guarding (lockKey t.platform) lock) (hcalling : t.calling = true)
  | fetched {lock : Nat} (hp : Fetching 0 t.todo)
      (hguard : t.hold = .guarding (lockKey t.platform) lock)

/-- What the next operation after the mark can be. -/
theorem Fetching.op {n : Nat} {o : Op} {k : o.Res → Action (Option PckCertRecord)}
    (h : Fetching n (.op o k)) : quiet o = true ∧ ∃ m, n = m + (poolFetch o).toNat ∧
      ∀ r, Fetching m (k r) := by
  obtain ⟨m, hm, hk⟩ := h.atMost
  exact ⟨h.unlocked.1, m, hm, fun r => ⟨hk r, h.unlocked.2 r⟩⟩

variable {env : Env} {cfg : Cache.Config} {interval : Nat} {alive guarded : Nat → Bool}
  {s s' : Shared} {t t' : Thread} {log started : List PoolFetch}

/-- What is known of the fetches that were started. -/
def Known (interval : Nat) (s : Shared) (log : List PoolFetch) : Prop :=
  ∀ e ∈ log, e.marked ≤ e.started ∧ e.started ≤ s.now ∧
    Stands interval s.now s.marks e.platform e.marked

/-- When a fetch is due, the intervals of all before it are over. -/
theorem over_due (hlog : Known interval s log) {platform : String}
    (hdue : due interval s.now s.marks platform = true) : Over interval log platform s.now := by
  intro e he hplatform
  obtain ⟨hmarked, hstarted, hstands⟩ := hlog e he
  rw [hplatform] at hstands
  exact stands_due hstands (by omega) hdue

/-- Reads of the store and the clock, and the publication. -/
theorem stage_access {o : Op} {k : o.Res → Action (Option PckCertRecord)} {r : o.Res}
    {db : Database} (hop : t.todo = .op o k) (ho : quiet o = true ∧ isFetch o = false)
    (h : perform env cfg s.db o r db) (ht : Stage interval s log t) :
    Stage interval { s with db := db } log { t with todo := k r } := by
  have hpool : poolFetch o = false := by
    cases o <;> first | rfl | cases ho.2
  have hcall : ∀ f k', t.todo = .op (.fetch f) k' → False := by
    intro f k' hf
    cases hop.symm.trans hf
    cases ho.2
  cases ht with
  | ended r' ht hhold => cases hop.symm.trans ht
  | asking hp hfree hidle hnew =>
    rw [hop] at hp
    cases hp with
    | read hnone hsome =>
      refine .asking ?_ hfree hidle hnew
      cases r with
      | none => exact hnone
      | some pool =>
        obtain ⟨_, hq, hp⟩ := getPlatformPool_eq_some.mp h.1.symm
        exact hsome pool hq hp
    | lock _ _ => cases ho.1
  | locking ht _ _ _ _ _ =>
    cases hop.symm.trans ht
    cases ho.1
  | locked hp hguard hidle hnew =>
    rw [hop] at hp
    cases hp with
    | read _ hk => exact .locked (hk r) hguard hidle hnew
    | check _ _ _ => cases ho.1
  | marking ht _ _ _ _ _ =>
    cases hop.symm.trans ht
    cases ho.1
  | stamped ht _ _ _ _ _ _ =>
    cases hop.symm.trans ht
    cases ho.1
  | fetching hp hguard hidle hpast hover hstands =>
    rw [hop] at hp
    obtain ⟨_, m, hm, hk⟩ := hp.op
    rw [hpool] at hm
    cases hm
    refine .fetching (hk r) hguard (fun hcalling => ?_) hpast hover hstands
    obtain ⟨f, k', hf, _⟩ := hidle hcalling
    exact (hcall f k' hf).elim
  | calling ht _ _ _ => exact (hcall _ _ ht).elim
  | fetched hp hguard =>
    rw [hop] at hp
    obtain ⟨_, m, hm, hk⟩ := hp.op
    rw [hpool] at hm
    cases hm
    exact .fetched (hk r) hguard

theorem Locked.not_lock {platform : String} {key : List UInt8}
    {k : Except PccsError Unit → Action (Option PckCertRecord)} :
    ¬ Locked platform (.op (.keyLock key) k) := by
  intro h
  cases h with
  | read ho _ => cases ho.1

/-- A request that comes to a lock comes to that of its platform. -/
theorem stage_enter {key : List UInt8} {k : Except PccsError Unit → Action (Option PckCertRecord)}
    {lock : Nat} {table : Table (List UInt8)} (hop : t.todo = .op (.keyLock key) k)
    (hfree : t.hold = .free) (ht : Stage interval s log t) :
    key = lockKey t.platform ∧ Stage interval { s with table := table } log
      { t with hold := .waiting key lock } := by
  cases ht with
  | ended r' ht hhold => cases hop.symm.trans ht
  | asking hp _ hidle hnew =>
    rw [hop] at hp
    cases hp with
    | lock hrefused hpassed => exact ⟨rfl, .locking hop hrefused hpassed rfl hidle hnew⟩
  | locking _ _ _ href _ _ =>
    rw [hfree] at href
    cases href
  | locked _ hguard _ _ => cases hfree.symm.trans hguard
  | marking _ _ hguard _ _ _ => cases hfree.symm.trans hguard
  | stamped _ _ hguard _ _ _ _ => cases hfree.symm.trans hguard
  | fetching _ hguard _ _ _ _ => cases hfree.symm.trans hguard
  | calling _ _ hguard _ => cases hfree.symm.trans hguard
  | fetched _ hguard => cases hfree.symm.trans hguard

theorem stage_acquire {key : List UInt8} {lock : Nat} (hwait : t.hold = .waiting key lock)
    (ht : Stage interval s log t) : Stage interval s log { t with hold := .guarding key lock } := by
  cases ht with
  | ended r' ht hhold =>
    rw [hwait] at hhold
    cases hhold
  | asking _ hfree _ _ => cases hwait.symm.trans hfree
  | locking ht hrefused hpassed href hidle hnew =>
    rw [hwait] at href
    cases href
    exact .locking ht hrefused hpassed rfl hidle hnew
  | locked _ hguard _ _ => cases hwait.symm.trans hguard
  | marking _ _ hguard _ _ _ => cases hwait.symm.trans hguard
  | stamped _ _ hguard _ _ _ _ => cases hwait.symm.trans hguard
  | fetching _ hguard _ _ _ _ => cases hwait.symm.trans hguard
  | calling _ _ hguard _ => cases hwait.symm.trans hguard
  | fetched _ hguard => cases hwait.symm.trans hguard

/-- Who guards a key before the check of what failed goes on or returns. -/
theorem stage_admitted {key : List UInt8}
    {k : Except PccsError Unit → Action (Option PckCertRecord)} {lock : Nat}
    (hop : t.todo = .op (.keyLock key) k) (hguard : t.hold = .guarding key lock)
    (ht : Stage interval s log t) :
    (∀ e, Ended (k (.error e))) ∧ Stage interval s log { t with todo := k (.ok ()) } := by
  cases ht with
  | ended r' ht hhold => cases hop.symm.trans ht
  | asking _ hfree _ _ => cases hguard.symm.trans hfree
  | locking ht hrefused hpassed href hidle hnew =>
    cases hop.symm.trans ht
    rw [hguard] at href
    cases href
    exact ⟨hrefused, .locked hpassed hguard hidle hnew⟩
  | locked hp _ _ _ =>
    rw [hop] at hp
    exact hp.not_lock.elim
  | marking ht _ _ _ _ _ => cases hop.symm.trans ht
  | stamped ht _ _ _ _ _ _ => cases hop.symm.trans ht
  | fetching hp _ _ _ _ _ =>
    rw [hop] at hp
    cases hp.op.1
  | calling ht _ _ _ => cases hop.symm.trans ht
  | fetched hp _ =>
    rw [hop] at hp
    cases hp.op.1

theorem stage_due {platform : String} {k : Bool → Action (Option PckCertRecord)}
    (hop : t.todo = .op (.refetchDue platform) k) (hlog : Known interval s log)
    (ht : Stage interval s log t) :
    Stage interval s log { t with todo := k (due interval s.now s.marks platform) } := by
  cases ht with
  | ended r' ht hhold => cases hop.symm.trans ht
  | asking hp _ _ _ =>
    rw [hop] at hp
    cases hp
  | locking ht _ _ _ _ _ => cases hop.symm.trans ht
  | locked hp hguard hidle hnew =>
    rw [hop] at hp
    cases hp with
    | read ho _ => cases ho.1
    | check hlate hmark hk =>
      cases hdue : due interval s.now s.marks t.platform with
      | false =>
        obtain ⟨r, hr⟩ := hlate
        exact .ended r hr (by rw [hguard]; rfl)
      | true => exact .marking hmark hk hguard hidle hnew (over_due hlog hdue)
  | marking ht _ _ _ _ _ => cases hop.symm.trans ht
  | stamped ht _ _ _ _ _ _ => cases hop.symm.trans ht
  | fetching hp _ _ _ _ _ =>
    rw [hop] at hp
    cases hp.op.1
  | calling ht _ _ _ => cases hop.symm.trans ht
  | fetched hp _ =>
    rw [hop] at hp
    cases hp.op.1

/-- A request that is about to mark a platform marks its own. -/
theorem stage_at_mark {platform : String} {k : Unit → Action (Option PckCertRecord)}
    (hop : t.todo = .op (.markRefetch platform) k) (ht : Stage interval s log t) :
    platform = t.platform ∧ Fetching 1 (k ()) ∧ t.calling = false ∧
      (∃ lock, t.hold = .guarding (lockKey t.platform) lock) ∧
      (t.stamped = false ∧ Over interval log t.platform s.now ∨
        t.stamped = true ∧ t.stamp ≤ s.now ∧ Over interval log t.platform t.stamp) := by
  cases ht with
  | ended r' ht hhold => cases hop.symm.trans ht
  | asking hp _ _ _ =>
    rw [hop] at hp
    cases hp
  | locking ht _ _ _ _ _ => cases hop.symm.trans ht
  | locked hp _ _ _ =>
    rw [hop] at hp
    cases hp with
    | read ho _ => cases ho.1
  | marking ht hk hguard hidle hnew hover =>
    cases hop.symm.trans ht
    exact ⟨rfl, hk, hidle, ⟨_, hguard⟩, .inl ⟨hnew, hover⟩⟩
  | stamped ht hk hguard hidle hstamped hpast hover =>
    cases hop.symm.trans ht
    exact ⟨rfl, hk, hidle, ⟨_, hguard⟩, .inr ⟨hstamped, hpast, hover⟩⟩
  | fetching hp _ _ _ _ _ =>
    rw [hop] at hp
    cases hp.op.1
  | calling ht _ _ _ => cases hop.symm.trans ht
  | fetched hp _ =>
    rw [hop] at hp
    cases hp.op.1

/-- A pool fetch starts under the lock of its platform and behind its mark. -/
theorem stage_send {f : Fetch} {k : Except PccsError HttpResponse → Action (Option PckCertRecord)}
    (hop : t.todo = .op (.fetch f) k) (hidle : t.calling = false) (ht : Stage interval s log t) :
    (poolFetch (.fetch f) = true → (∃ lock, t.hold = .guarding (lockKey t.platform) lock) ∧
      t.stamp ≤ s.now ∧ Over interval log t.platform t.stamp ∧
      Stands interval s.now s.marks t.platform t.stamp) ∧
    Stage interval s ((if poolFetch (.fetch f) then [⟨t.qeid, t.pceid, t.stamp, s.now⟩] else []) ++ log)
      { t with calling := true } := by
  cases ht with
  | ended r' ht hhold => cases hop.symm.trans ht
  | asking hp _ _ _ =>
    rw [hop] at hp
    cases hp
  | locking ht _ _ _ _ _ => cases hop.symm.trans ht
  | locked hp _ _ _ =>
    rw [hop] at hp
    cases hp with
    | read ho _ => cases ho.2
  | marking ht _ _ _ _ _ => cases hop.symm.trans ht
  | stamped ht _ _ _ _ _ _ => cases hop.symm.trans ht
  | fetching hp hguard _ hpast hover hstands =>
    have hp' := hp
    rw [hop] at hp'
    obtain ⟨_, m, hm, hk⟩ := hp'.op
    cases hpool : poolFetch (.fetch f) with
    | true =>
      rw [hpool] at hm
      cases hm
      exact ⟨fun _ => ⟨⟨_, hguard⟩, hpast, hover, hstands⟩, .calling hop hk hguard rfl⟩
    | false =>
      refine ⟨nofun, ?_⟩
      exact .fetching hp hguard (fun _ => ⟨f, k, hop, hpool⟩) hpast hover hstands
  | calling ht _ _ hcalling => cases hidle.symm.trans hcalling
  | fetched hp hguard =>
    have hp' := hp
    rw [hop] at hp'
    obtain ⟨_, m, hm, hk⟩ := hp'.op
    cases hpool : poolFetch (.fetch f) with
    | true =>
      rw [hpool] at hm
      cases hm
    | false => exact ⟨nofun, .fetched hp hguard⟩

theorem stage_answer {f : Fetch}
    {k : Except PccsError HttpResponse → Action (Option PckCertRecord)}
    (r : Except PccsError HttpResponse) (hop : t.todo = .op (.fetch f) k)
    (hcalling : t.calling = true) (ht : Stage interval s log t) :
    Stage interval s log { t with todo := k r, calling := false } := by
  cases ht with
  | ended r' ht hhold => cases hop.symm.trans ht
  | asking _ _ hidle _ => cases hidle.symm.trans hcalling
  | locking _ _ _ _ hidle _ => cases hidle.symm.trans hcalling
  | locked _ _ hidle _ => cases hidle.symm.trans hcalling
  | marking _ _ _ hidle _ _ => cases hidle.symm.trans hcalling
  | stamped _ _ _ hidle _ _ _ => cases hidle.symm.trans hcalling
  | fetching hp hguard hother hpast hover hstands =>
    obtain ⟨f', k', hf, hpool⟩ := hother hcalling
    cases hop.symm.trans hf
    rw [hop] at hp
    obtain ⟨_, m, hm, hk⟩ := hp.op
    rw [hpool] at hm
    cases hm
    exact .fetching (hk r) hguard nofun hpast hover hstands
  | calling ht hk hguard _ =>
    cases hop.symm.trans ht
    exact .fetched (hk r) hguard
  | fetched hp hguard =>
    rw [hop] at hp
    obtain ⟨_, m, hm, hk⟩ := hp.op
    have hnone : m = 0 := by omega
    exact .fetched (hnone ▸ hk r) hguard

theorem move_stage (hm : Move env cfg interval alive guarded s t s' t' started)
    (hlog : Known interval s log) (ht : Stage interval s log t) :
    Stage interval s' (started ++ log) t' := by
  cases hm with
  | access hop ho h => exact stage_access hop ho h ht
  | enter hop hfree => exact (stage_enter hop hfree ht).2
  | acquire hwait hfree => exact stage_acquire hwait ht
  | refuse e hop hguard =>
    obtain ⟨r, hr⟩ := (stage_admitted hop hguard ht).1 e
    exact .ended r hr rfl
  | pass hop hguard => exact (stage_admitted hop hguard ht).2
  | due hop => exact stage_due hop hlog ht
  | stamp hop hnew =>
    obtain ⟨rfl, hk, hidle, ⟨lock, hguard⟩, ⟨_, hover⟩ | ⟨hold, _⟩⟩ := stage_at_mark hop ht
    · exact .stamped hop hk hguard hidle rfl (Nat.le_refl _) hover
    · cases hnew.symm.trans hold
  | mark hop hstamped =>
    obtain ⟨rfl, hk, hidle, ⟨lock, hguard⟩, ⟨hnew, _⟩ | ⟨_, hpast, hover⟩⟩ := stage_at_mark hop ht
    · cases hnew.symm.trans hstamped
    · refine .fetching hk hguard (fun hcalling => ?_) hpast hover stands_marked
      cases hidle.symm.trans hcalling
  | send hop hidle => exact (stage_send hop hidle ht).2
  | answer r hop hcalling => exact stage_answer r hop hcalling ht

end Stages

end Pccs.Refetch
