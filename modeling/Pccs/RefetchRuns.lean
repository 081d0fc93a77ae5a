import Pccs.Refetch
import Mathlib.Data.List.Pairwise

/-!
# Runs of pool re-fetches

Two requests never guard one platform, so its pool fetches are never in progress
together, and between them everything that the throttle knows of the platform is
theirs to change. Each fetch starts after its own mark, and the marks of two
fetches of a platform are an interval apart. The starts may be closer than that,
by the time the earlier fetch took from its mark to its start.
-/
namespace Pccs.Refetch

open Text KeyValue Store Process Cache Coherence KeyGate Runs
open SingleFlight (Hold inflightMax)

/-- Two requests do not guard one key. -/
def Thread.Apart (t u : Thread) : Prop :=
  ∀ key lock lock', t.hold = .guarding key lock → u.hold ≠ .guarding key lock'

/-- The later fetch started later, and a platform is marked once per interval. -/
def PoolFetch.Spaced (interval : Nat) (later earlier : PoolFetch) : Prop :=
  earlier.started ≤ later.started ∧
    (later.platform = earlier.platform → earlier.marked + interval ≤ later.marked)

structure Inv (interval : Nat) (c : State) : Prop where
  table : c.shared.table.Ok
  placed : ∀ t ∈ c.threads, ∀ key lock, t.hold.ref = some (key, lock) →
    c.shared.table.locks[key]? = some lock
  apart : c.threads.Pairwise Thread.Apart
  stage : ∀ t ∈ c.threads, Stage interval c.shared c.log t
  known : Known interval c.shared c.log
  spaced : c.log.Pairwise (PoolFetch.Spaced interval)

section Moves

variable {env : Env} {cfg : Cache.Config} {interval : Nat} {alive guarded : Nat → Bool}
  {s s' : Shared} {t t' u : Thread} {log log' started : List PoolFetch}

/-- What a step does to what is known of the platforms. -/
inductive Effect (interval : Nat) (s s' : Shared) (log : List PoolFetch) (t : Thread) :
    List PoolFetch → Prop
  | none (hmarks : s'.marks = s.marks) : Effect interval s s' log t []
  | marked {lock : Nat} (hguard : t.hold = .guarding (lockKey t.platform) lock)
      (hmarks : s'.marks = mark refetchMarksMax interval s.now s.marks t.platform t.stamp)
      (hover : Over interval log t.platform t.stamp) : Effect interval s s' log t []
  | started {lock : Nat} (hguard : t.hold = .guarding (lockKey t.platform) lock)
      (hmarks : s'.marks = s.marks) (hpast : t.stamp ≤ s.now)
      (hover : Over interval log t.platform t.stamp)
      (hstands : Stands interval s.now s.marks t.platform t.stamp) :
      Effect interval s s' log t [⟨t.qeid, t.pceid, t.stamp, s.now⟩]

theorem move_effect (hm : Move env cfg interval alive guarded s t s' t' started)
    (ht : Stage interval s log t) : Effect interval s s' log t started := by
  cases hm with
  | mark hop hstamped =>
    obtain ⟨rfl, hk, hidle, ⟨lock, hguard⟩, ⟨hnew, _⟩ | ⟨_, hpast, hover⟩⟩ := stage_at_mark hop ht
    · cases hnew.symm.trans hstamped
    · exact .marked hguard rfl hover
  | @send f k hop hidle =>
    cases hpool : poolFetch (.fetch f) with
    | true =>
      obtain ⟨⟨lock, hguard⟩, hpast, hover, hstands⟩ := (stage_send hop hidle ht).1 hpool
      exact .started hguard rfl hpast hover hstands
    | false => exact .none rfl
  | _ => exact .none rfl

theorem move_same (hm : Move env cfg interval alive guarded s t s' t' started) :
    s'.now = s.now ∧ t'.platform = t.platform := by
  cases hm <;> exact ⟨rfl, rfl⟩

theorem known_move (hlog : Known interval s log) (he : Effect interval s s' log t started)
    (hnow : s'.now = s.now) : Known interval s' (started ++ log) := by
  cases he with
  | none hmarks =>
    intro e hmem
    rw [hnow, hmarks]
    exact hlog e hmem
  | marked _ hmarks hover =>
    intro e hmem
    obtain ⟨hmarked, hstarted, hstands⟩ := hlog e hmem
    rw [hnow, hmarks]
    refine ⟨hmarked, hstarted, stands_mark hstands fun hplatform => ?_⟩
    have hlate := hover e hmem hplatform.symm
    omega
  | started _ hmarks hpast _ hstands =>
    rw [List.singleton_append]
    refine List.forall_mem_cons.mpr ⟨?_, fun e hmem => ?_⟩
    · rw [hnow, hmarks]
      exact ⟨hpast, Nat.le_refl _, hstands⟩
    · rw [hnow, hmarks]
      exact hlog e hmem

theorem spaced_move (hlog : Known interval s log) (hspaced : log.Pairwise (PoolFetch.Spaced interval))
    (he : Effect interval s s' log t started) :
    (started ++ log).Pairwise (PoolFetch.Spaced interval) := by
  cases he with
  | none _ => exact hspaced
  | marked _ _ _ => exact hspaced
  | started _ _ _ hover _ =>
    refine List.pairwise_cons.mpr ⟨fun e hmem => ?_, hspaced⟩
    exact ⟨(hlog e hmem).2.1, fun hplatform => hover e hmem hplatform.symm⟩

/-- A stage only depends on what is known of the platform that is guarded. -/
theorem stage_frame (h : Stage interval s log u) (hnow : s.now ≤ s'.now)
    (hguard : ∀ lock, u.hold = .guarding (lockKey u.platform) lock →
      (∀ e ∈ log', e.platform = u.platform → e ∈ log) ∧
      ∀ time, Stands interval s.now s.marks u.platform time →
        Stands interval s'.now s'.marks u.platform time) :
    Stage interval s' log' u := by
  cases h with
  | ended r ht hhold => exact .ended r ht hhold
  | asking hp hfree hidle hnew => exact .asking hp hfree hidle hnew
  | locking ht hrefused hpassed href hidle hnew =>
    exact .locking ht hrefused hpassed href hidle hnew
  | locked hp hg hidle hnew => exact .locked hp hg hidle hnew
  | marking ht hk hg hidle hnew hover =>
    refine .marking ht hk hg hidle hnew fun e he hplatform => ?_
    have hlate := hover e ((hguard _ hg).1 e he hplatform) hplatform
    omega
  | stamped ht hk hg hidle hstamped hpast hover =>
    refine .stamped ht hk hg hidle hstamped (by omega) fun e he hplatform => ?_
    exact hover e ((hguard _ hg).1 e he hplatform) hplatform
  | fetching hp hg hidle hpast hover hstands =>
    refine .fetching hp hg hidle (by omega) (fun e he hplatform => ?_) ((hguard _ hg).2 _ hstands)
    exact hover e ((hguard _ hg).1 e he hplatform) hplatform
  | calling ht hk hg hcalling => exact .calling ht hk hg hcalling
  | fetched hp hg => exact .fetched hp hg

/-- A step of one request changes nothing that another one relies on. -/
theorem stage_other (he : Effect interval s s' log t started) (hnow : s'.now = s.now)
    (hapart : t.Apart u) (hu : Stage interval s log u) : Stage interval s' (started ++ log) u := by
  refine stage_frame hu (Nat.le_of_eq hnow.symm) fun lock hguard => ?_
  have hne : ∀ lock', t.hold = .guarding (lockKey t.platform) lock' → t.platform ≠ u.platform := by
    intro lock' ht hplatform
    rw [← hplatform] at hguard
    exact hapart _ lock' lock ht hguard
  cases he with
  | none hmarks =>
    rw [hnow, hmarks]
    exact ⟨fun e he _ => he, fun time h => h⟩
  | marked ht hmarks _ =>
    rw [hnow, hmarks]
    exact ⟨fun e he _ => he, fun time h => stands_mark h fun hplatform =>
      absurd hplatform (hne _ ht)⟩
  | started ht hmarks _ _ _ =>
    rw [hnow, hmarks]
    refine ⟨fun e he hplatform => ?_, fun time h => h⟩
    rcases List.mem_cons.mp he with rfl | he
    · exact absurd hplatform (hne _ ht)
    · exact he

/-- What a step does with the lock table and the guards. -/
structure LockStep (alive guarded : Nat → Bool) (s s' : Shared) (t t' : Thread) : Prop where
  table : s'.table = s.table ∨ ∃ key, s'.table = (s.table.enter inflightMax alive key).2
  entered : ∀ key lock, t'.hold.ref = some (key, lock) →
    (t.hold.ref = some (key, lock) ∧ s'.table = s.table) ∨ s'.table.locks[key]? = some lock
  guards : ∀ key lock, t'.hold = .guarding key lock → t.hold = .guarding key lock ∨
    t.hold = .waiting key lock ∧ guarded lock = false

theorem move_locks (hm : Move env cfg interval alive guarded s t s' t' started) :
    LockStep alive guarded s s' t t' := by
  cases hm with
  | @enter key k ht hfree =>
    refine ⟨.inr ⟨key, rfl⟩, fun key' lock h => ?_, nofun⟩
    cases h
    exact .inr enter_self
  | @acquire key lock hwait hfree =>
    refine ⟨.inl rfl, fun key' lock' h => .inl ⟨by rw [hwait]; exact h, rfl⟩, fun key' lock' h => ?_⟩
    cases h
    exact .inr ⟨hwait, hfree⟩
  | refuse => exact ⟨.inl rfl, nofun, nofun⟩
  | _ => exact ⟨.inl rfl, fun _ _ h => .inl ⟨h, rfl⟩, fun _ _ h => .inl h⟩

end Moves

section Invariant

variable {env : Env} {cfg : Cache.Config} {interval : Nat} {c c' : State}

theorem Thread.Apart.symm {t u : Thread} (h : t.Apart u) : u.Apart t :=
  fun key lock lock' hu ht => h key lock' lock ht hu

/-- A lock that a request refers to is alive. -/
theorem alive_of_ref {t : Thread} (ht : t ∈ c.threads) {key : List UInt8} {lock : Nat}
    (h : t.hold.ref = some (key, lock)) : c.alive lock = true := by
  rw [State.alive, Bool.or_eq_true]
  exact .inl (List.any_eq_true.mpr ⟨t, ht, by simp [h]⟩)

theorem guarded_of_guarding {t : Thread} (ht : t ∈ c.threads) {key : List UInt8} {lock : Nat}
    (h : t.hold = .guarding key lock) : c.guarded lock = true :=
  List.any_eq_true.mpr ⟨t, ht, by simp [h, Hold.guarded]⟩

/-- A new lock in the table leaves the others where they are. -/
theorem placed_enter (h : Inv interval c) (key : List UInt8) {t : Thread} (ht : t ∈ c.threads)
    {key' : List UInt8} {lock : Nat} (href : t.hold.ref = some (key', lock)) :
    (c.shared.table.enter inflightMax c.alive key).2.locks[key']? = some lock :=
  enter_keeps (h.placed t ht key' lock href) (alive_of_ref ht href)

/-- A request that is about to guard a key is the only one. -/
theorem apart_move (h : Inv interval c) {t t' u : Thread} {s : Shared} (ht : t ∈ c.threads)
    (hu : u ∈ c.threads) (hl : LockStep c.alive c.guarded c.shared s t t') (htu : t.Apart u) :
    t'.Apart u := by
  intro key lock lock' ht' hu'
  obtain hguard | ⟨hwait, hfree⟩ := hl.guards key lock ht'
  · exact htu key lock lock' hguard hu'
  · have hlock := h.placed t ht key lock (by rw [hwait]; rfl)
    have hlock' := h.placed u hu key lock' (by rw [hu']; rfl)
    cases hlock.symm.trans hlock'
    exact Bool.false_ne_true (hfree.symm.trans (guarded_of_guarding hu hu'))

theorem inv_start (h : Start c) : Inv interval c := by
  obtain ⟨htable, _, hthreads, _, hlog⟩ := h
  refine ⟨by rw [htable]; exact ok_empty, ?_, ?_, ?_, ?_, ?_⟩ <;> simp [hthreads, hlog, Known]

theorem inv_move (h : Inv interval c) {before after : List Thread} {t t' : Thread} {s : Shared}
    {started : List PoolFetch} (hc : c.threads = before ++ t :: after)
    (hm : Move env cfg interval c.alive c.guarded c.shared t s t' started) :
    Inv interval
      { c with shared := s, threads := before ++ t' :: after, log := started ++ c.log } := by
  obtain ⟨hnow, _⟩ := move_same hm
  have hl := move_locks hm
  have ht : t ∈ c.threads := by simp [hc]
  have hothers : ∀ u ∈ before ++ after, u ∈ c.threads := by
    intro u hu
    rw [hc]
    rcases List.mem_append.mp hu with hu | hu <;> simp [hu]
  have hapart : (∀ u ∈ before ++ after, t.Apart u) ∧ (before ++ after).Pairwise Thread.Apart := by
    have hall := h.apart
    rw [hc, List.pairwise_middle Thread.Apart.symm, List.pairwise_cons] at hall
    exact hall
  have heffect := move_effect hm (h.stage t ht)
  constructor
  · obtain hsame | ⟨key, henter⟩ := hl.table
    · exact (congrArg Table.Ok hsame).mpr h.table
    · exact (congrArg Table.Ok henter).mpr (enter_ok h.table)
  · refine forall_mem_middle.mpr ⟨fun key lock href => ?_, fun u hu key lock href => ?_⟩
    · obtain ⟨hbefore, hsame⟩ | hself := hl.entered key lock href
      · simp only [hsame]
        exact h.placed t ht key lock hbefore
      · exact hself
    · obtain hsame | ⟨key', henter⟩ := hl.table
      · simp only [hsame]
        exact h.placed u (hothers u hu) key lock href
      · simp only [henter]
        exact placed_enter h key' (hothers u hu) href
  · refine (List.pairwise_middle Thread.Apart.symm).mpr (List.pairwise_cons.mpr ⟨?_, hapart.2⟩)
    exact fun u hu => apart_move h ht (hothers u hu) hl (hapart.1 u hu)
  · refine forall_mem_middle.mpr
      ⟨move_stage hm h.known (h.stage t ht), fun u hu => ?_⟩
    exact stage_other heffect hnow (hapart.1 u hu) (h.stage u (hothers u hu))
  · exact known_move h.known heffect hnow
  · exact spaced_move h.known h.spaced heffect

theorem inv_step (h : Inv interval c) (hs : Step env cfg interval c c') : Inv interval c' := by
  cases hs with
  | arrive qeid pceid cpusvn pcesvn version =>
    refine ⟨h.table, ?_, ?_, ?_, h.known, h.spaced⟩
    · exact List.forall_mem_cons.mpr ⟨nofun, h.placed⟩
    · exact List.pairwise_cons.mpr ⟨fun u _ => nofun, h.apart⟩
    · refine List.forall_mem_cons.mpr ⟨?_, h.stage⟩
      exact .asking (asking_refetchPoolForNewRawTcb _ _ _ _ _) rfl rfl rfl
  | move before after t t' s started hc hm => exact inv_move h hc hm
  | leave before after t hc =>
    have hothers : ∀ u ∈ before ++ after, u ∈ c.threads := by
      intro u hu
      rw [hc]
      rcases List.mem_append.mp hu with hu | hu <;> simp [hu]
    have hsub : (before ++ after).Sublist c.threads := by
      rw [hc]
      exact (List.append_sublist_append_left before).mpr (List.sublist_cons_self t after)
    exact ⟨h.table, fun u hu => h.placed u (hothers u hu), h.apart.sublist hsub,
      fun u hu => h.stage u (hothers u hu), h.known, h.spaced⟩
  | tick d =>
    have hlater : c.shared.now ≤ c.shared.now + d := Nat.le_add_right _ d
    refine ⟨h.table, h.placed, h.apart, fun t ht => ?_, fun e he => ?_, h.spaced⟩
    · exact stage_frame (h.stage t ht) hlater fun _ _ =>
        ⟨fun e he _ => he, fun time hstands => stands_later hstands hlater⟩
    · obtain ⟨hmarked, hstarted, hstands⟩ := h.known e he
      exact ⟨hmarked, Nat.le_trans hstarted hlater, stands_later hstands hlater⟩
  | interfere db =>
    refine ⟨h.table, h.placed, h.apart, fun t ht => ?_, h.known, h.spaced⟩
    exact stage_frame (h.stage t ht) (Nat.le_refl _) fun _ _ => ⟨fun e he _ => he, fun _ hs => hs⟩
  | enterOther key =>
    refine ⟨enter_ok h.table, fun t ht key' lock href => placed_enter h key ht href, h.apart,
      fun t ht => ?_, h.known, h.spaced⟩
    exact stage_frame (h.stage t ht) (Nat.le_refl _) fun _ _ => ⟨fun e he _ => he, fun _ hs => hs⟩
  | leaveOther lock => exact ⟨h.table, h.placed, h.apart, h.stage, h.known, h.spaced⟩

/-- A pool fetch in progress is under the lock of its platform. -/
theorem guarding_of_fetches {s : Shared} {log : List PoolFetch} {t : Thread}
    (ht : Stage interval s log t) (hf : t.Fetches) :
    ∃ lock, t.hold = .guarding (lockKey t.platform) lock := by
  obtain ⟨hcalling, f, k, hop, _⟩ := hf
  cases ht with
  | ended r ht _ => cases hop.symm.trans ht
  | asking _ _ hidle _ => cases hidle.symm.trans hcalling
  | locking _ _ _ _ hidle _ => cases hidle.symm.trans hcalling
  | locked _ hg _ _ => exact ⟨_, hg⟩
  | marking _ _ hg _ _ _ => exact ⟨_, hg⟩
  | stamped _ _ hg _ _ _ _ => exact ⟨_, hg⟩
  | fetching _ hg _ _ _ _ => exact ⟨_, hg⟩
  | calling _ _ hg _ => exact ⟨_, hg⟩
  | fetched _ hg => exact ⟨_, hg⟩

/-- In every run each pool fetch starts at or after its own mark, the marks of
two fetches of a platform are at least the interval apart, so a fetch starts at
least the interval after the mark of any earlier one, and no two fetches of a
platform are in progress together. -/
theorem refetches_throttled (h : Reachable Start (Step env cfg interval) c) :
    (∀ e ∈ c.log, e.marked ≤ e.started) ∧
    (c.log.Pairwise fun later earlier => earlier.started ≤ later.started ∧
      (Same later.qeid earlier.qeid → Same later.pceid earlier.pceid →
        earlier.marked + interval ≤ later.marked ∧
          earlier.marked + interval ≤ later.started)) ∧
    c.threads.Pairwise fun t u => Same t.qeid u.qeid → Same t.pceid u.pceid →
      ¬ (t.Fetches ∧ u.Fetches) := by
  have hstart : ∀ s, Start s → Inv interval s := fun _ => inv_start
  have hstep : ∀ s s', Inv interval s → Step env cfg interval s s' → Inv interval s' :=
    fun _ _ => inv_step
  have hinv := invariant hstart hstep h
  refine ⟨fun e he => (hinv.known e he).1, ?_, ?_⟩
  · refine hinv.spaced.imp_of_mem fun hlater _ hspaced => ⟨hspaced.1, fun hq hp => ?_⟩
    have hmarks := hspaced.2 (platformKey_congr hq hp)
    have hafter := (hinv.known _ hlater).1
    exact ⟨hmarks, by omega⟩
  · refine hinv.apart.imp_of_mem fun {t u} ht hu hapart hq hp hboth => ?_
    obtain ⟨lock, hguard⟩ := guarding_of_fetches (hinv.stage t ht) hboth.1
    obtain ⟨lock', hguard'⟩ := guarding_of_fetches (hinv.stage u hu) hboth.2
    have hplatform : u.platform = t.platform := (platformKey_congr hq hp).symm
    rw [hplatform] at hguard'
    exact hapart _ lock lock' hguard hguard'

end Invariant

section Twice

def refetchCfg : Cache.Config := { Cache.Config.plain with poolRefetchOnNewTcb := true }

/-- The interval in nanoseconds. -/
def tenSeconds : Nat := 10 * 10 ^ 9

def knownPool : PlatformPool := { qeId := "A1", pceId := "0000", encPpid := "01" }

def knownDb : Database := write ∅ [putPlatformPool Keys.plainEnv knownPool]

theorem knownPool_stored {qeid : String} (hq : Same "A1" qeid) :
    getPlatformPool Keys.plainEnv knownDb qeid "0000" = some knownPool := by
  refine getPlatformPool_eq_some.mpr ⟨?_, hq, rfl⟩
  have hkey : Keys.platform Keys.plainEnv qeid "0000" =
      (putPlatformPool Keys.plainEnv knownPool).key := Keys.platform_congr hq.symm rfl
  rw [hkey]
  exact get_write_last ∅ [] [] (putPlatformPool Keys.plainEnv knownPool) (by simp)

theorem step_alone {s s' : Shared} {t t' : Thread} {others : List Nat}
    {log started : List PoolFetch}
    (hm : Move Keys.plainEnv refetchCfg tenSeconds (State.alive ⟨s, [t], others, log⟩)
      (State.guarded ⟨s, [t], others, log⟩) s t s' t' started) :
    Step Keys.plainEnv refetchCfg tenSeconds ⟨s, [t], others, log⟩ ⟨s', [t'], others, started ++ log⟩ :=
  .move ⟨s, [t], others, log⟩ [] [] t t' s' started rfl hm

theorem move_due {alive guarded : Nat → Bool} {s : Shared} {t : Thread} {platform : String}
    {k : Bool → Action (Option PckCertRecord)} (ht : t.todo = .op (.refetchDue platform) k)
    (hdue : due tenSeconds s.now s.marks platform = true) :
    Move Keys.plainEnv refetchCfg tenSeconds alive guarded s t s { t with todo := k true } [] := by
  rw [← hdue]
  exact .due ht

theorem move_in_time {alive guarded : Nat → Bool} {s : Shared} {t : Thread}
    {k : Bool → Action (Option PckCertRecord)} (ht : t.todo = .op .elapsed k) :
    Move Keys.plainEnv refetchCfg tenSeconds alive guarded s t s { t with todo := k false } [] := by
  have hread : perform Keys.plainEnv refetchCfg s.db .elapsed false s.db := rfl
  exact .access ht ⟨rfl, rfl⟩ hread

/-- A request marks the platform, starts its fetch some time later and is
cancelled. -/
theorem attempt {qeid : String} (hq : Same "A1" qeid) (now d : Nat) (table : Table (List UInt8))
    (marks : Marks String) (log : List PoolFetch) (hdue : due tenSeconds now marks "A1:0000" = true)
    (h : Reachable Start (Step Keys.plainEnv refetchCfg tenSeconds)
      ⟨⟨knownDb, now, table, marks⟩, [], [], log⟩) :
    ∃ table', Reachable Start (Step Keys.plainEnv refetchCfg tenSeconds)
      ⟨⟨knownDb, now + d, table', mark refetchMarksMax tenSeconds now marks "A1:0000" now⟩, [], [],
        ⟨qeid, "0000", now, now + d⟩ :: log⟩ := by
  have hpool := knownPool_stored hq
  have harrive := reachable_step h (.arrive _ qeid "0000" "00" "0000" 4)
  have hread := reachable_step harrive (step_alone (.access rfl ⟨rfl, rfl⟩ ⟨hpool.symm, rfl⟩))
  have henter := reachable_step hread (step_alone (.enter rfl rfl))
  have hacquire := reachable_step henter (step_alone (.acquire rfl rfl))
  have hpass := reachable_step hacquire (step_alone (.pass rfl rfl))
  have hagain := reachable_step hpass (step_alone (.access rfl ⟨rfl, rfl⟩ ⟨hpool.symm, rfl⟩))
  have hgo := reachable_step hagain (step_alone (move_due rfl hdue))
  have hstamp := reachable_step hgo (step_alone (.stamp rfl rfl))
  have hmark := reachable_step hstamp (step_alone (.mark rfl rfl))
  have htick := reachable_step hmark (.tick _ d)
  have hintime := reachable_step htick (step_alone (move_in_time rfl))
  have hsend := reachable_step hintime (step_alone (.send rfl rfl))
  exact ⟨_, reachable_step hsend (.leave _ [] [] _ rfl)⟩

/-- The first fetch starts five seconds after its mark and is given up. The second is
due ten seconds after that mark, and starts at once. -/
theorem twice_reachable : ∃ c, Reachable Start (Step Keys.plainEnv refetchCfg tenSeconds) c ∧
    c.log = [⟨"A1", "0000", tenSeconds, tenSeconds⟩, ⟨"a1", "0000", 0, 5 * 10 ^ 9⟩] := by
  have hstart : Reachable Start (Step Keys.plainEnv refetchCfg tenSeconds)
      ⟨⟨knownDb, 0, .empty, ∅⟩, [], [], []⟩ := reachable_start ⟨rfl, rfl, rfl, rfl, rfl⟩
  have hfirst : due tenSeconds 0 (∅ : Marks String) "A1:0000" = true := by simp [due]
  have hsecond : due tenSeconds tenSeconds (mark refetchMarksMax tenSeconds 0 ∅ "A1:0000" 0)
      "A1:0000" = true := by
    rw [due, mark, get_insert_key, if_pos rfl]
    rfl
  have hlower : toAsciiLowercase "A1" = toAsciiLowercase "a1" := by decide
  obtain ⟨table, h⟩ := attempt hlower 0 (5 * 10 ^ 9) .empty ∅ [] hfirst hstart
  have htick := reachable_step h (.tick _ (5 * 10 ^ 9))
  simp only [show 0 + 5 * 10 ^ 9 + 5 * 10 ^ 9 = tenSeconds by decide] at htick
  obtain ⟨table', h⟩ := attempt rfl tenSeconds 0 table _ _ hsecond htick
  exact ⟨_, h, by rw [Nat.add_zero, Nat.zero_add]⟩

/-- The starts of two fetches of one platform may be less than the interval
apart. -/
theorem starts_closer_than_interval :
    ∃ c, Reachable Start (Step Keys.plainEnv refetchCfg tenSeconds) c ∧
      ∃ later ∈ c.log, ∃ earlier ∈ c.log,
      Same later.qeid earlier.qeid ∧ Same later.pceid earlier.pceid ∧
      earlier.started < later.started ∧ later.started < earlier.started + tenSeconds := by
  obtain ⟨c, hc, hlog⟩ := twice_reachable
  have hcase : toAsciiLowercase "A1" = toAsciiLowercase "a1" := by decide
  exact ⟨c, hc, ⟨"A1", "0000", tenSeconds, tenSeconds⟩, by simp [hlog],
    ⟨"a1", "0000", 0, 5 * 10 ^ 9⟩, by simp [hlog], hcase, rfl, by decide, by decide⟩

theorem refetches_throttled_twice :
    ∃ c, Reachable Start (Step Keys.plainEnv refetchCfg tenSeconds) c ∧
    c.log = [⟨"A1", "0000", tenSeconds, tenSeconds⟩, ⟨"a1", "0000", 0, 5 * 10 ^ 9⟩] ∧
    (∀ e ∈ c.log, e.marked ≤ e.started) ∧
    (c.log.Pairwise fun later earlier => earlier.started ≤ later.started ∧
      (Same later.qeid earlier.qeid → Same later.pceid earlier.pceid →
        earlier.marked + tenSeconds ≤ later.marked ∧
          earlier.marked + tenSeconds ≤ later.started)) ∧
    c.threads.Pairwise fun t u => Same t.qeid u.qeid → Same t.pceid u.pceid →
      ¬ (t.Fetches ∧ u.Fetches) := by
  obtain ⟨c, hc, hlog⟩ := twice_reachable
  exact ⟨c, hc, hlog, refetches_throttled hc⟩

end Twice

end Pccs.Refetch
