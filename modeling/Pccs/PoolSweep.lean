import Pccs.Cache
import Pccs.JoinSet
import Pccs.PlatformRuns

/-!
# The scheduled refresh of all pools

`refresh_platform_pools` as a refilled set of tasks over the store. A task is one
refresh of a platform; it performs its operations between those of the others
and ends with a result or a panic. All it writes are rows of its own platform.
-/
namespace Pccs.PoolSweep

open Text Json Fallible KeyValue Store Cache Coherence Process Runs JoinSet

/-- How far a spawned refresh has come. -/
inductive Status
  | running (todo : Attempt Unit)
  | returned (result : Except PccsError Unit)
  | panicked

structure Task where
  pool : PlatformPool
  status : Status

def Task.Ended (t : Task) : Prop := ∀ todo, t.status ≠ .running todo

section Sweep

variable (env : Env) (cfg : Config)

inductive Move : Database → Task → Database → Task → Prop
  | op {s s' : Database} {o : Op} {k : o.Res → Attempt Unit} {r : o.Res} (pool : PlatformPool)
      (h : perform env cfg s o r s') : Move s ⟨pool, .running (.op o k)⟩ s' ⟨pool, .running (k r)⟩
  | ret (s : Database) (pool : PlatformPool) (result : Except PccsError Unit) :
      Move s ⟨pool, .running (.ret result)⟩ s ⟨pool, .returned result⟩
  | panic (s : Database) (pool : PlatformPool) (todo : Attempt Unit) :
      Move s ⟨pool, .running todo⟩ s ⟨pool, .panicked⟩

def refreshTasks : Tasks PlatformPool Database Task where
  spawn pool := ⟨pool, .running (refreshPlatformPool env cfg pool)⟩
  move := Move env cfg
  ended := Task.Ended

/-- The platforms with a mark inside the throttle interval. A mark is a platform
key with the time since it was set. -/
def refetchedRecently (interval : Nat) (marks : List (String × Nat)) : List String :=
  (marks.filter fun m => decide (interval ≠ 0) && decide (m.2 < interval)).map Prod.fst

def sweepQueue (pools : List PlatformPool) (recently : List String) : List PlatformPool :=
  (pools.filter hasStoredCredential).filter fun p =>
    !recently.contains (platformKey p.qeId p.pceId)

def sweepGate : Prop :=
  cfg.scheduledPoolRefresh ∧ cfg.mode = .lazy ∧ cfg.isIntel ∧ cfg.enabled ∧ cfg.pcsVersion ≠ 3

/-- The loop of the sweep after its first refill. -/
def sweep (refreshConcurrency interval : Nat) (marks : List (String × Nat))
    (pools : List PlatformPool) : Loop PlatformPool Task :=
  enter (max refreshConcurrency 1) (refreshTasks env cfg).spawn
    (sweepQueue pools (refetchedRecently interval marks))

abbrev SweepStep (refreshConcurrency : Nat) :
    Database × Loop PlatformPool Task → Database × Loop PlatformPool Task → Prop :=
  Step (refreshTasks env cfg) (max refreshConcurrency 1)

end Sweep

section Queue

/-- The pool has a stored credential and no mark younger than the interval. -/
def eligible (interval : Nat) (marks : List (String × Nat)) (pool : PlatformPool) : Bool :=
  hasStoredCredential pool &&
    !marks.any fun m => m.1 == platformKey pool.qeId pool.pceId && decide (m.2 < interval)

theorem contains_refetchedRecently (interval : Nat) (marks : List (String × Nat)) (key : String) :
    (refetchedRecently interval marks).contains key =
      marks.any fun m => m.1 == key && decide (m.2 < interval) := by
  induction marks with
  | nil => rfl
  | cons m rest ih =>
    rw [List.any_cons, ← ih, refetchedRecently, List.filter_cons]
    by_cases hage : m.2 < interval
    · have hinterval : interval ≠ 0 := by omega
      simp [hage, hinterval, refetchedRecently, Bool.beq_comm]
    · simp [hage, refetchedRecently]

theorem sweepQueue_eq (interval : Nat) (marks : List (String × Nat)) (pools : List PlatformPool) :
    sweepQueue pools (refetchedRecently interval marks) =
      pools.filter (eligible interval marks) := by
  rw [sweepQueue, List.filter_filter]
  congr 1
  funext pool
  rw [contains_refetchedRecently, eligible, Bool.and_comm]

/-- The refreshes that the cache forks are those of the queue. -/
theorem refreshPlatformPools_eq (cfg : Cache.Config) (hgate : sweepGate cfg) :
    refreshPlatformPools cfg = (act .listPlatformPools).bind fun pools =>
      (act .refetchedRecently).bind fun recently =>
        (collect (fun pool => act (.spawnRefresh pool)) (sweepQueue pools recently)).bind
          fun _ => .ret () := by
  have hopen : cfg.scheduledPoolRefresh ∧ cfg.mode = .lazy ∧ cfg.isIntel ∧ cfg.enabled ∧
      cfg.pcsVersion ≠ 3 := hgate
  have hqueue : ∀ (pools : List PlatformPool) (recently : List String),
      sweepQueue pools recently = pools.filter fun pool =>
        hasStoredCredential pool && !recently.contains (platformKey pool.qeId pool.pceId) := by
    intro pools recently
    simp only [sweepQueue, List.filter_filter, Bool.and_comm]
  rw [refreshPlatformPools, if_pos hopen]
  simp only [hqueue]

end Queue

section Refresh

variable {env : Env} {cfg : Config}

theorem atMost_refreshPlatformPool (hmode : cfg.mode = .lazy) (pool : PlatformPool) :
    AtMost (fun _ => true) 3 (refreshPlatformPool env cfg pool) := by
  have hfetch : AtMost (fun _ => true) 1
      (mapErr (fetchPool env cfg pool.encPpid pool.platformManifest pool.pceId)
      PccsError.noCacheData) := atMost_bind (atMost_fetchPool _ _ _) fun _ => atMost_ret 0 _
  have hpublish : ∀ fresh : PlatformPool, AtMost (fun _ => true) (1 + 1)
      ((fetchTcb env cfg 0 fresh.fmspc cfg.pcsVersion .early).andThen fun tcb =>
        act (.publishRefreshed fresh pool.credentials tcb)) :=
    fun fresh => atMost_andThen (atMost_fetchTcb _ _ _ _) fun tcb => atMost_call _
  change AtMost (fun _ => true) (1 + (0 + (1 + 1))) (Proc.andThen _ _)
  refine atMost_andThen hfetch fun resp => ?_
  rw [validatePool_lazy hmode]
  exact atMost_andThen (atMost_ret 0 _) hpublish

/-- A refresh talks to the upstream and publishes for its own platform. -/
def RefreshOp (pool : PlatformPool) : Op → Prop
  | .fetch _ => True
  | .publishRefreshed fresh _ _ => Same fresh.qeId pool.qeId ∧ Same fresh.pceId pool.pceId
  | _ => False

theorem only_refreshPlatformPool (hmode : cfg.mode = .lazy) (pool : PlatformPool) :
    Only (RefreshOp pool) (refreshPlatformPool env cfg pool) := by
  have hfetch : ∀ f, RefreshOp pool (.fetch f) := fun _ => trivial
  refine only_andThen (only_bind (only_fetchPool hfetch _ _ _) fun _ => trivial) fun resp => ?_
  rw [validatePool_lazy hmode]
  cases hfresh : pckcertPool pool.qeId pool.pceId pool.encPpid pool.platformManifest resp with
  | error e => trivial
  | ok fresh =>
    obtain ⟨_, rfl⟩ := pckcertPool_eq_ok hfresh
    change Only (RefreshOp pool) (Proc.andThen (fetchTcb env cfg _ _ _ _) _)
    refine only_andThen (only_fetchTcb (hfetch _)) fun tcb => only_call ?_
    exact ⟨(same_uppercase _).symm, (same_uppercase _).symm⟩

/-- A task that only performs operations of a refresh, and finitely many. -/
def Task.Ok (t : Task) : Prop :=
  ∀ todo, t.status = .running todo → Only (RefreshOp t.pool) todo ∧ ∃ n, AtMost (fun _ => true) n todo

/-- The moves a task has left if it does not panic. -/
noncomputable def Task.cost (t : Task) : Nat :=
  match t.status with
  | .running todo => longest todo + 1
  | _ => 0

theorem ok_move {s s' : Database} {t t' : Task} (hok : t.Ok) (h : Move env cfg s t s' t') :
    t'.Ok ∧ t'.cost < t.cost := by
  cases h with
  | @op s' o k r pool h =>
    obtain ⟨honly, n, hmost⟩ := hok _ rfl
    obtain ⟨hrest, hless⟩ := longest_lt hmost r
    refine ⟨?_, by simpa [Task.cost] using hless⟩
    rintro _ ⟨⟩
    exact ⟨honly.2 r, _, hrest⟩
  | ret pool result => exact ⟨nofun, by simp [Task.cost]⟩
  | panic pool todo => exact ⟨nofun, by simp [Task.cost]⟩

theorem finite_refreshTasks (hmode : cfg.mode = .lazy) :
    Finite (refreshTasks env cfg) Task.Ok Task.cost 4 where
  spawn pool := by
    have hmost : AtMost (fun _ => true) 3 (refreshPlatformPool env cfg pool) :=
      atMost_refreshPlatformPool hmode pool
    refine ⟨?_, Nat.succ_le_succ (longest_le hmost)⟩
    rintro _ ⟨⟩
    exact ⟨only_refreshPlatformPool hmode pool, 3, hmost⟩
  move _ _ _ _ := ok_move

theorem commit_total {α : Type} (s : Database) (r : Except PccsError (α × WriteBatch)) :
    ∃ out s', (out, s') = commit s r := ⟨_, _, rfl⟩

/-- A task in the set has ended or can go on without a panic. -/
theorem go_on {s : Database} {t : Task} (hok : t.Ok) :
    t.Ended ∨ ∃ s' t', Move env cfg s t s' t' ∧ t'.status ≠ .panicked := by
  obtain ⟨pool, status⟩ := t
  cases status with
  | returned result => exact .inl nofun
  | panicked => exact .inl nofun
  | running todo =>
    right
    cases todo with
    | ret result => exact ⟨_, _, .ret s pool result, nofun⟩
    | op o k =>
      have hop := (hok _ rfl).1.1
      cases o with
      | fetch f =>
        -- the upstream may always fail
        have hmove : Move env cfg s ⟨pool, .running (.op (.fetch f) k)⟩ s
            ⟨pool, .running (k (Except.error PccsError.noCacheData))⟩ := .op pool rfl
        exact ⟨s, _, hmove, nofun⟩
      | publishRefreshed fresh expected tcb =>
        obtain ⟨r, s', h⟩ := commit_total s (publishRefreshed env s fresh expected tcb)
        exact ⟨s', _, .op pool h, nofun⟩
      | _ => exact hop.elim

end Refresh

section Isolation

variable {env : Env} {cfg : Config} {qeid pceid : String} {s u : Database}

/-- The row is stored for this platform. -/
def ofPlatform (qeid pceid : String) : Row → Prop
  | .platform pool => Same pool.qeId qeid ∧ Same pool.pceId pceid
  | .pckcert rec => Same rec.qeid qeid ∧ Same rec.pceid pceid
  | _ => False

/-- Under each key the stores have the same row, or rows of the platform. -/
def Alike (qeid pceid : String) (s u : Database) : Prop :=
  ∀ key : List UInt8, s[key]? = u[key]? ∨
    (∀ row, s[key]? = some row → ofPlatform qeid pceid row) ∧
      ∀ row, u[key]? = some row → ofPlatform qeid pceid row

theorem Alike.refl (qeid pceid : String) (s : Database) : Alike qeid pceid s s := fun _ => .inl rfl

theorem Alike.row_iff (h : Alike qeid pceid s u) {key : List UInt8} {row : Row}
    (hrow : ¬ ofPlatform qeid pceid row) : s[key]? = some row ↔ u[key]? = some row := by
  rcases h key with heq | ⟨hs, hu⟩
  · rw [heq]
  · exact ⟨fun hk => absurd (hs row hk) hrow, fun hk => absurd (hu row hk) hrow⟩

/-- The pool of another platform reads the same. -/
theorem Alike.getPlatformPool (h : Alike qeid pceid s u) {qeid' pceid' : String}
    (hother : ¬ (Same qeid' qeid ∧ Same pceid' pceid)) :
    Store.getPlatformPool env s qeid' pceid' = Store.getPlatformPool env u qeid' pceid' := by
  ext pool
  have hiff := @getPlatformPool_eq_some env
  simp only [hiff]
  refine and_congr_left fun hsame => h.row_iff fun hof => hother ?_
  exact ⟨hsame.1.symm.trans hof.1, hsame.2.symm.trans hof.2⟩

/-- The same batch on both sides. -/
theorem Alike.write (h : Alike qeid pceid s u) (batch : WriteBatch) :
    Alike qeid pceid (KeyValue.write s batch) (KeyValue.write u batch) := by
  intro key
  obtain hnone | ⟨before, w, after, rfl, rfl, hafter⟩ := last_write batch key
  · rw [get_write_of_ne s batch key hnone, get_write_of_ne u batch key hnone]
    exact h key
  · rw [get_write_last s before after w hafter, get_write_last u before after w hafter]
    exact .inl rfl

/-- A batch that replaces rows of the platform by rows of the platform. -/
theorem Alike.own (h : Alike qeid pceid s u) {batch : WriteBatch}
    (hbatch : ∀ w ∈ batch, (∀ row, w.effect = some row → ofPlatform qeid pceid row) ∧
      ∃ row, s[w.key]? = some row ∧ ofPlatform qeid pceid row) :
    Alike qeid pceid (KeyValue.write s batch) u := by
  intro key
  obtain ⟨hsame, _⟩ | ⟨w, hw, rfl, heffect⟩ := get_write_cases s batch key
  · rw [hsame]
    exact h key
  · obtain ⟨hnew, row, hold, hof⟩ := hbatch w hw
    right
    rw [heffect]
    refine ⟨hnew, fun row' hrow' => ?_⟩
    rcases h w.key with heq | ⟨_, hu⟩
    · rw [← heq, hold] at hrow'
      cases hrow'
      exact hof
    · exact hu row' hrow'

/-- What a refresh writes replaces rows of its platform. -/
theorem refreshed_rows (hc : Coherent env s) {fresh : PlatformPool}
    {expected : PlatformCredentials} {tcb : TcbRecord} {r : Unit} {batch : WriteBatch}
    (h : publishRefreshed env s fresh expected tcb = .ok (r, batch)) :
    ∀ w ∈ batch, (∀ row, w.effect = some row → ofPlatform fresh.qeId fresh.pceId row) ∧
      ∃ row, s[w.key]? = some row ∧ ofPlatform fresh.qeId fresh.pceId row := by
  obtain ⟨_, hguard, h⟩ := bind_eq_ok.mp h
  obtain ⟨out, hout, h⟩ := bind_eq_ok.mp h
  cases pure_eq_ok.mp h
  have hguard := reject_eq_ok.mp hguard
  cases hpool : getPlatformPool env s fresh.qeId fresh.pceId with
  | none => simp [hpool, publicationMatches] at hguard
  | some pool =>
    obtain ⟨hrow, hq, hp⟩ := getPlatformPool_eq_some.mp hpool
    rw [hpool] at hout
    intro w hw
    simp only [Option.toList_none, List.append_nil, List.map_nil, List.mem_append,
      List.mem_singleton] at hw
    rcases hw with hw | rfl
    · obtain ⟨rec, hrec, rfl⟩ := List.mem_map.mp hw
      obtain ⟨x, hx, rfl⟩ := List.mem_map.mp hrec
      obtain ⟨raw, hraw, hx⟩ := exists_of_mem_result hout x hx
      obtain ⟨rec, hselect, hx⟩ := bind_eq_ok.mp hx
      cases pure_eq_ok.mp hx
      obtain ⟨hm, _, hcpu, hsvn⟩ := selected_matches hselect
      obtain ⟨old, hold, hmold⟩ := (hc.served hpool).record raw hraw
      refine ⟨?_, .pckcert old, ?_, hmold.qeid.trans hq, hmold.pceid.trans hp⟩
      · rintro _ ⟨⟩
        exact ⟨hm.qeid, hm.pceid⟩
      · rw [← hold]
        exact congrArg (s[·]?) (Keys.pckcert_congr (hm.qeid.trans hq.symm) (hm.pceid.trans hp.symm)
          hcpu hsvn)
    · refine ⟨?_, .platform pool, hrow, hq, hp⟩
      rintro _ ⟨⟩
      exact ⟨rfl, rfl⟩

/-- The publication of another platform reads and writes the same. -/
theorem Alike.publishRefreshed (h : Alike qeid pceid s u) {fresh : PlatformPool}
    (hother : ¬ (Same fresh.qeId qeid ∧ Same fresh.pceId pceid)) (expected : PlatformCredentials)
    (tcb : TcbRecord) :
    Cache.publishRefreshed env s fresh expected tcb =
      Cache.publishRefreshed env u fresh expected tcb := by
  have hread : Store.getPlatformPool env s fresh.qeId fresh.pceId =
      Store.getPlatformPool env u fresh.qeId fresh.pceId := h.getPlatformPool hother
  unfold Cache.publishRefreshed replacePlatformCertsWithSelection replacePlatformCertsAfterFetch
  rw [hread]

def other (qeid pceid : String) (pool : PlatformPool) : Bool :=
  !(eqIgnoreAsciiCase pool.qeId qeid && eqIgnoreAsciiCase pool.pceId pceid)

theorem other_iff {pool : PlatformPool} :
    other qeid pceid pool = true ↔ ¬ (Same pool.qeId qeid ∧ Same pool.pceId pceid) := by
  rw [other, Bool.not_eq_true', ← Bool.not_eq_true, Bool.and_eq_true, eqIgnoreAsciiCase_iff,
    eqIgnoreAsciiCase_iff]
  rfl

/-- Both stores are coherent, and alike but for one platform. -/
structure Beside (env : Env) (qeid pceid : String) (s u : Database) : Prop where
  left : Coherent env s
  right : Coherent env u
  alike : Alike qeid pceid s u

theorem ofPlatform_congr {qeid' pceid' : String} (hq : Same qeid' qeid) (hp : Same pceid' pceid)
    {row : Row} (h : ofPlatform qeid' pceid' row) : ofPlatform qeid pceid row := by
  cases row with
  | platform pool => exact ⟨h.1.trans hq, h.2.trans hp⟩
  | pckcert rec => exact ⟨h.1.trans hq, h.2.trans hp⟩
  | _ => exact h

theorem refreshed_coherent (hinj : Function.Injective env.hash128Hex) (hc : Coherent env s)
    {fresh : PlatformPool} {expected : PlatformCredentials} {tcb : TcbRecord}
    {r : Except PccsError Unit} {s' : Database}
    (h : (r, s') = commit s (publishRefreshed env s fresh expected tcb)) : Coherent env s' := by
  have hafter := (PlatformRuns.refresh_coherent hinj hc fresh expected tcb).1
  rw [← h] at hafter
  exact hafter

theorem beside_skipped (hinj : Function.Injective env.hash128Hex) {s' : Database} {t t' : Task}
    (hok : t.Ok) (hskip : other qeid pceid t.pool = false) (h : Move env cfg s t s' t')
    (hb : Beside env qeid pceid s u) : Beside env qeid pceid s' u := by
  cases h with
  | @op s' o k r pool h =>
    have hop := (hok _ rfl).1.1
    cases o with
    | fetch f =>
      have hsame : s' = s := h
      exact hsame ▸ hb
    | publishRefreshed fresh expected tcb =>
      have hpool : Same pool.qeId qeid ∧ Same pool.pceId pceid := by
        by_contra hne
        exact Bool.false_ne_true (hskip.symm.trans (other_iff.mpr hne))
      refine ⟨refreshed_coherent hinj hb.left h, hb.right, ?_⟩
      obtain ⟨e, _, _, rfl⟩ | ⟨a, batch, hbatch, _, rfl⟩ := commit_cases h
      · exact hb.alike
      · refine hb.alike.own fun w hw => ?_
        obtain ⟨hnew, row, hold, hof⟩ := refreshed_rows hb.left hbatch w hw
        have hto : ∀ row, ofPlatform fresh.qeId fresh.pceId row → ofPlatform qeid pceid row :=
          fun row => ofPlatform_congr (hop.1.trans hpool.1) (hop.2.trans hpool.2)
        exact ⟨fun row heffect => hto row (hnew row heffect), row, hold, hto row hof⟩
    | _ => exact hop.elim
  | ret pool result => exact hb
  | panic pool todo => exact hb

theorem beside_kept (hinj : Function.Injective env.hash128Hex) {s' : Database} {t t' : Task}
    (hok : t.Ok) (hkeep : other qeid pceid t.pool = true) (h : Move env cfg s t s' t')
    (hb : Beside env qeid pceid s u) :
    ∃ u', Move env cfg u t u' t' ∧ Beside env qeid pceid s' u' := by
  cases h with
  | @op s' o k r pool h =>
    have hop := (hok _ rfl).1.1
    cases o with
    | fetch f =>
      have hsame : s' = s := h
      exact ⟨u, .op pool rfl, hsame ▸ hb⟩
    | publishRefreshed fresh expected tcb =>
      have hother : ¬ (Same fresh.qeId qeid ∧ Same fresh.pceId pceid) := fun hsame =>
        other_iff.mp hkeep ⟨hop.1.symm.trans hsame.1, hop.2.symm.trans hsame.2⟩
      have hread : Cache.publishRefreshed env s fresh expected tcb =
          Cache.publishRefreshed env u fresh expected tcb :=
        hb.alike.publishRefreshed hother expected tcb
      have hcommit : (r, s') = commit s (Cache.publishRefreshed env s fresh expected tcb) := h
      have hleft := refreshed_coherent hinj hb.left hcommit
      obtain ⟨e, herror, hr, rfl⟩ | ⟨a, batch, hbatch, hr, rfl⟩ := commit_cases h
      · have hu : (r, u) = commit u (publishRefreshed env u fresh expected tcb) := by
          rw [← hread, herror, hr]
          rfl
        exact ⟨u, .op pool hu, hb⟩
      · have hu : (r, write u batch) = commit u (publishRefreshed env u fresh expected tcb) := by
          rw [← hread, hbatch, hr]
          rfl
        exact ⟨_, .op pool hu, hleft, refreshed_coherent hinj hb.right hu, hb.alike.write batch⟩
    | _ => exact hop.elim
  | ret pool result => exact ⟨u, .ret u pool result, hb⟩
  | panic pool todo => exact ⟨u, .panic u pool todo, hb⟩

theorem job_move {s' : Database} {t t' : Task} (h : Move env cfg s t s' t') : t'.pool = t.pool := by
  cases h <;> rfl

theorem apart_refreshTasks (hinj : Function.Injective env.hash128Hex) (qeid pceid : String) :
    Apart (refreshTasks env cfg) Task.pool (other qeid pceid) Task.Ok (Beside env qeid pceid) where
  spawn _ := rfl
  move _ _ _ _ := job_move
  kept _ _ _ _ _ hok hkeep h hb := beside_kept hinj hok hkeep h hb
  skipped _ _ _ _ _ hok hskip h hb := beside_skipped hinj hok hskip h hb

end Isolation

section Results

/-- What holds of a sweep over these pools after some steps. -/
structure Covers (env : Env) (cfg : Config) (refreshConcurrency interval : Nat)
    (marks : List (String × Nat)) (pools : List PlatformPool) (db : Database) (steps : Nat)
    (c : Database × Loop PlatformPool Task) : Prop where
  /-- Refreshes are started for eligible pools only, in order and once each. -/
  started : c.2.started <+: pools.filter (eligible interval marks)
  covered : c.2.tasks = [] → c.2.started = pools.filter (eligible interval marks)
  concurrent : c.2.tasks.length ≤ max refreshConcurrency 1
  terminates : steps ≤ 5 * (pools.filter (eligible interval marks)).length
  /-- Until the set is empty there is a next step, and no task needs to panic. -/
  progress : c.2.tasks ≠ [] → ∃ c', SweepStep env cfg refreshConcurrency c c'
  continues : ∀ t ∈ c.2.tasks, t.Ended ∨
    ∃ s' t', Move env cfg c.1 t s' t' ∧ t'.status ≠ .panicked
  /-- A sweep that skips a platform can do the same to all the other rows. -/
  isolated : ∀ qeid pceid, ∃ steps' c',
    Steps (SweepStep env cfg refreshConcurrency) steps'
      (db, sweep env cfg refreshConcurrency interval marks (pools.filter (other qeid pceid))) c' ∧
    (c.2.tasks = [] → c'.2.tasks = []) ∧
    ∀ (key : List UInt8) (row : Row), ¬ ofPlatform qeid pceid row →
      (c.1[key]? = some row ↔ c'.1[key]? = some row)

variable {env : Env} {cfg : Config}

/-- In every run the sweep starts one refresh for each eligible pool, never more
than allowed at a time, and ends; what one platform comes to does not matter to
the others. -/
theorem sweep_covers (hinj : Function.Injective env.hash128Hex) (hgate : sweepGate cfg)
    {s : PlatformRuns.State}
    (hs : Reachable (PlatformRuns.Start env) (PlatformRuns.Step env) s)
    {refreshConcurrency interval : Nat} {marks : List (String × Nat)} {pools : List PlatformPool}
    {steps : Nat} {c : Database × Loop PlatformPool Task}
    (h : Steps (SweepStep env cfg refreshConcurrency) steps
      (s.db, sweep env cfg refreshConcurrency interval marks pools) c) :
    Covers env cfg refreshConcurrency interval marks pools s.db steps c := by
  have hmode := hgate.2.1
  have hcoherent := (invariant (PlatformRuns.inv_start hinj) (PlatformRuns.inv_step hinj) hs).coherent
  have hfilled := filled_of_steps h
  have hfinite : Finite (refreshTasks env cfg) Task.Ok Task.cost 4 := finite_refreshTasks hmode
  obtain ⟨hok, hsteps⟩ := steps_le hfinite h
  have hjobs := hfilled.jobs
  rw [sweepQueue_eq] at hjobs hsteps hfilled
  refine ⟨⟨_, hjobs⟩, fun hempty => (hfilled.over (by omega) hempty).1, hfilled.room, by omega,
    exists_step fun t ht => ?_, fun t ht => go_on (hok t ht), fun qeid pceid => ?_⟩
  · exact (go_on (hok t ht)).imp id fun ⟨s', t', hmove, _⟩ => ⟨s', t', hmove⟩
  obtain ⟨m, u', hbeside, hskip⟩ := skip_steps (apart_refreshTasks hinj qeid pceid)
    (fun n s c hrun => (steps_le hfinite hrun).1) h
    ⟨hcoherent, hcoherent, Alike.refl qeid pceid s.db⟩
  refine ⟨m, (u', skip (refreshTasks env cfg) (max refreshConcurrency 1) Task.pool
    (other qeid pceid) c.2), ?_, fun hempty => ?_, fun key row hrow => hbeside.alike.row_iff hrow⟩
  · unfold sweep
    rw [sweepQueue_eq, List.filter_filter]
    rw [sweepQueue_eq, List.filter_filter] at hskip
    simp only [Bool.and_comm] at hskip ⊢
    exact hskip
  · obtain ⟨_, hpending⟩ := hfilled.over (by omega) hempty
    simp [skip, hempty, hpending, refill]

/-- A process that sweeps all pools every so often. -/
def sweepCfg : Cache.Config :=
  { Cache.Config.plain with poolRefetchOnNewTcb := true, scheduledPoolRefresh := true }

def duePool : PlatformPool := { qeId := "A1", pceId := "0000", encPpid := "01" }

def markedPool : PlatformPool := { qeId := "A2", pceId := "0000", encPpid := "02" }

def barePool : PlatformPool := { qeId := "A3", pceId := "0000", encPpid := "00" }

def refusedPool : PlatformPool := { qeId := "A4", pceId := "0000", encPpid := "04" }

def latePool : PlatformPool := { qeId := "A5", pceId := "0000", encPpid := "05" }

/-- A refresh that the upstream refuses. -/
theorem move_refused {pool : PlatformPool} {k : Except PccsError HttpResponse → Attempt Unit}
    {e : PccsError} (db : Database)
    (hask : refreshPlatformPool Keys.plainEnv sweepCfg pool =
      .op (.fetch (.pckcertsIntel pool.encPpid pool.pceId)) k)
    (hfail : k (.error e) = .ret (.error .noCacheData)) :
    Move Keys.plainEnv sweepCfg db ⟨pool, .running (refreshPlatformPool Keys.plainEnv sweepCfg pool)⟩
      db ⟨pool, .running (.ret (.error .noCacheData))⟩ := by
  rw [hask, ← hfail]
  exact .op pool rfl

def fivePools : List PlatformPool := [markedPool, duePool, refusedPool, barePool, latePool]

/-- Three of five pools are due, two at a time. The first refresh panics, the
upstream refuses the two others, and the last one ends before the second. -/
theorem steps_fivePools : Steps (SweepStep Keys.plainEnv sweepCfg 2) 8
    (∅, sweep Keys.plainEnv sweepCfg 2 60 [("A2:0000", 5), ("A1:0000", 60)] fivePools)
    (∅, ⟨[], [], [duePool, refusedPool, latePool]⟩) := by
  have hqueue : sweepQueue fivePools (refetchedRecently 60 [("A2:0000", 5), ("A1:0000", 60)]) =
      [duePool, refusedPool, latePool] := by decide
  have hpanicked : Steps (SweepStep Keys.plainEnv sweepCfg 2) 2
      (∅, sweep Keys.plainEnv sweepCfg 2 60 [("A2:0000", 5), ("A1:0000", 60)] fivePools)
      (∅, ⟨[], [⟨refusedPool, .running (refreshPlatformPool Keys.plainEnv sweepCfg refusedPool)⟩,
        ⟨latePool, .running (refreshPlatformPool Keys.plainEnv sweepCfg latePool)⟩],
        [duePool, refusedPool, latePool]⟩) := by
    rw [sweep, hqueue]
    refine .tail (.tail (.refl _) (.move [latePool] [duePool, refusedPool] [] [_]
      (.panic _ duePool _))) ?_
    exact .join _ [latePool] [duePool, refusedPool] [] [_] nofun
  have hrefused : Steps (SweepStep Keys.plainEnv sweepCfg 2) 4
      (∅, sweep Keys.plainEnv sweepCfg 2 60 [("A2:0000", 5), ("A1:0000", 60)] fivePools)
      (∅, ⟨[], [⟨refusedPool, .running (.ret (.error .noCacheData))⟩,
        ⟨latePool, .running (.ret (.error .noCacheData))⟩],
        [duePool, refusedPool, latePool]⟩) := by
    refine .tail (.tail hpanicked (.move [] [duePool, refusedPool, latePool] [] [_]
      (move_refused (e := .noCacheData) ∅ rfl rfl))) ?_
    exact .move [] [duePool, refusedPool, latePool] [_] [] (move_refused (e := .noCacheData) ∅ rfl rfl)
  have hlast : Steps (SweepStep Keys.plainEnv sweepCfg 2) 6
      (∅, sweep Keys.plainEnv sweepCfg 2 60 [("A2:0000", 5), ("A1:0000", 60)] fivePools)
      (∅, ⟨[], [⟨refusedPool, .running (.ret (.error .noCacheData))⟩],
        [duePool, refusedPool, latePool]⟩) := by
    refine .tail (.tail hrefused (.move [] [duePool, refusedPool, latePool] [_] []
      (.ret _ latePool _))) ?_
    exact .join _ [] [duePool, refusedPool, latePool] [_] [] nofun
  refine .tail (.tail hlast (.move [] [duePool, refusedPool, latePool] [] []
    (.ret _ refusedPool _))) ?_
  exact .join _ [] [duePool, refusedPool, latePool] [] [] nofun

theorem sweep_covers_panicked :
    Covers Keys.plainEnv sweepCfg 2 60 [("A2:0000", 5), ("A1:0000", 60)] fivePools ∅ 8
      (∅, ⟨[], [], [duePool, refusedPool, latePool]⟩) := by
  have hgate : sweepGate sweepCfg := ⟨rfl, rfl, rfl, rfl, by decide⟩
  have hempty : Reachable (PlatformRuns.Start Keys.plainEnv) (PlatformRuns.Step Keys.plainEnv)
      ⟨∅, []⟩ := reachable_start .empty
  exact sweep_covers Keys.plainEnv_injective hgate hempty steps_fivePools

end Results

end Pccs.PoolSweep
