import Pccs.Gates
import Pccs.SingleFlight
import Mathlib.Data.List.Pairwise

/-!
# Runs of lookups side by side

At most one request guards a key, so at most one call for it is in flight. No
call is sent for a key while an outcome is remembered for it, and an outcome is
replayed only for its own key and only while it is recent. Whoever waits for a
guard while a record is written finds the record and asks for nothing, as long
as the record is valid.
-/
namespace Pccs.SingleFlight

open Text KeyValue PccsError Store Process Ocsp Cache KeyGate Runs

/-- Why an event could happen after others. -/
def Justified (env : Env) (cfg : Cache.Config) (earlier : List Event) : Event → Prop
  | .asked _ q time => ∀ key had o, q.key env cfg = some key →
      .remembered key had o ∈ earlier → had + failureTtl ≤ time
  | .replayed _ q time o => ∃ key had, q.key env cfg = some key ∧
      .remembered key had o ∈ earlier ∧ had ≤ time ∧ time < had + failureTtl
  | _ => True

/-- Every event of a trace is justified by the ones before it. -/
def Honest (env : Env) (cfg : Cache.Config) : List Event → Prop
  | [] => True
  | e :: earlier => Justified env cfg earlier e ∧ Honest env cfg earlier

/-- Two requests do not guard one key. -/
def Thread.Apart (t u : Thread) : Prop :=
  ∀ key lock lock', t.hold = .guarding key lock → u.hold ≠ .guarding key lock'

structure Inv (env : Env) (cfg : Cache.Config) (c : State) : Prop where
  table : c.shared.table.Ok
  placed : ∀ t ∈ c.threads, ∀ key lock, t.hold.ref = some (key, lock) →
    c.shared.table.locks[key]? = some lock ∧ t.request.key env cfg = some key
  apart : c.threads.Pairwise Thread.Apart
  ids : c.threads.Pairwise fun t u => t.id ≠ u.id
  old : ∀ t ∈ c.threads, t.id < c.nextId
  askers : ∀ id q time, .asked id q time ∈ c.trace → id < c.nextId
  /-- Who has not come to the guard has asked for nothing. -/
  unasked : ∀ t ∈ c.threads, (∀ key lock, t.hold ≠ .guarding key lock) → ¬ Ended t.todo →
    ∀ q time, .asked t.id q time ∉ c.trace
  stage : ∀ t ∈ c.threads, Stage env cfg c.shared.memo t.request t.hold t.calling t.todo
  memo : ∀ (key : List UInt8) (time : Nat) (o : RecentOutcome),
    c.shared.memo[key]? = some (time, o) →
      time ≤ c.shared.now ∧ .remembered key time o ∈ c.trace ∧ ∀ r, o = .response r → Relayed key
  young : ∀ key time o, .remembered key time o ∈ c.trace → time + failureTtl ≤ c.shared.now ∨
    ∃ time' o', c.shared.memo[key]? = some (time', o') ∧ time ≤ time'
  honest : Honest env cfg c.trace
  small : c.shared.memo.size ≤ recentOutcomesMax

section Invariant

variable {env : Env} {chrono : Chrono} {cfg : Cache.Config} {c c' : State}

theorem Thread.Apart.symm {t u : Thread} (h : t.Apart u) : u.Apart t :=
  fun key lock lock' hu ht => h key lock' lock ht hu

theorem honest_mem {trace later earlier : List Event} {e : Event} (h : Honest env cfg trace)
    (he : trace = later ++ e :: earlier) : Justified env cfg earlier e := by
  induction later generalizing trace with
  | nil =>
    subst he
    exact h.1
  | cons e' later ih =>
    subst he
    exact ih h.2 rfl

theorem inv_start (h : Start c) : Inv env cfg c := by
  obtain ⟨htable, hmemo, hthreads, _, htrace⟩ := h
  refine ⟨by rw [htable]; exact ok_empty, ?_, ?_, ?_, ?_, ?_, ?_, ?_, ?_, ?_, ?_, ?_⟩ <;>
    simp [hthreads, hmemo, htrace, Honest]

/-- A lock that a request refers to is alive. -/
theorem alive_of_ref {t : Thread} (ht : t ∈ c.threads) {key : List UInt8} {lock : Nat}
    (h : t.hold.ref = some (key, lock)) : c.alive lock = true := by
  rw [State.alive, Bool.or_eq_true]
  exact .inl (List.any_eq_true.mpr ⟨t, ht, by simp [h]⟩)

theorem guarded_of_guarding {t : Thread} (ht : t ∈ c.threads) {key : List UInt8} {lock : Nat}
    (h : t.hold = .guarding key lock) : c.guarded lock = true :=
  List.any_eq_true.mpr ⟨t, ht, by simp [h, Hold.guarded]⟩

/-- A new lock in the table leaves the others where they are. -/
theorem placed_enter (h : Inv env cfg c) (key : List UInt8) {t : Thread} (ht : t ∈ c.threads)
    {key' : List UInt8} {lock : Nat} (href : t.hold.ref = some (key', lock)) :
    (c.shared.table.enter inflightMax c.alive key).2.locks[key']? = some lock :=
  enter_keeps (h.placed t ht key' lock href).1 (alive_of_ref ht href)

/-- A stage depends on what is remembered for the guarded key only. -/
theorem stage_frame {memo memo' : Memo (List UInt8) RecentOutcome} {q : Lookup} {hold : Hold}
    {calling : Bool} {p : Attempt q.Reply} (h : Stage env cfg memo q hold calling p)
    (hmemo : ∀ key lock, hold = .guarding key lock →
      memo'[key]? = memo[key]? ∨ memo'[key]? = none) : Stage env cfg memo' q hold calling p := by
  cases h with
  | ended _ hhold r => exact .ended _ hhold r
  | looking hkey hp => exact .looking hkey hp
  | waiting lock hk => exact .waiting lock hk
  | admitting lock hk => exact .admitting lock hk
  | checking lock hkey hnoerr hsome hnone =>
    refine .checking lock hkey (fun time e he => ?_) hsome hnone
    obtain hsame | hgone := hmemo _ lock rfl
    · exact hnoerr time e (hsame.symm.trans he)
    · cases hgone.symm.trans he
  | filling lock calling hnone hp =>
    refine .filling lock calling ?_ hp
    obtain hsame | hgone := hmemo _ lock rfl
    · exact hsame.trans hnone
    · exact hgone

/-- What is told by a step is justified by what was told before. -/
theorem honest_told (h : Inv env cfg c) {t : Thread} (ht : t ∈ c.threads) {s : Shared}
    {events : List Event} (he : Told c.shared s t events) : Honest env cfg (events ++ c.trace) := by
  have hkey : ∀ key lock, t.hold = .guarding key lock → t.request.key env cfg = some key :=
    fun key lock hguard => (h.placed t ht key lock (by rw [hguard]; rfl)).2
  cases he with
  | nothing => exact h.honest
  | asked key lock hguard hmemo =>
    refine ⟨fun key' had o hkey' hmem => ?_, h.honest⟩
    cases (hkey key lock hguard).symm.trans hkey'
    obtain hold | ⟨time', o', hget, _⟩ := h.young key had o hmem
    · exact hold
    · cases hmemo.symm.trans hget
  | remembered key o hmemo => exact ⟨trivial, h.honest⟩
  | replayed key lock had o hguard hmemo hyoung =>
    obtain ⟨hle, hmem, _⟩ := h.memo key had o hmemo
    exact ⟨⟨key, had, hkey key lock hguard, hmem, hle, by omega⟩, h.honest⟩
  | stored => exact ⟨trivial, h.honest⟩

/-- Who asks guards a key. -/
theorem asked_told {s s' : Shared} {t : Thread} {events : List Event} (he : Told s s' t events)
    (id : Nat) (q : Lookup) (time : Nat) (h : .asked id q time ∈ events) :
    id = t.id ∧ ∃ key lock, t.hold = .guarding key lock := by
  cases he with
  | asked key lock hguard _ =>
    cases List.mem_singleton.mp h
    exact ⟨rfl, key, lock, hguard⟩
  | nothing => cases h
  | _ => cases List.mem_singleton.mp h

/-- What is remembered has been told. -/
theorem memo_told {t : Thread} {s : Shared} {events : List Event} (h : Inv env cfg c)
    (hmemo : ∀ key, MemoStep c.shared t s.memo events key) (hnow : s.now = c.shared.now)
    {key : List UInt8} {time : Nat} {o : RecentOutcome} (hget : s.memo[key]? = some (time, o)) :
    time ≤ s.now ∧ .remembered key time o ∈ events ++ c.trace ∧
      ∀ r, o = .response r → Relayed key := by
  rw [hnow]
  cases hmemo key with
  | same hsame =>
    obtain ⟨hle, hmem, hkey⟩ := h.memo key time o (hsame.symm.trans hget)
    exact ⟨hle, List.mem_append_right _ hmem, hkey⟩
  | dropped hnone _ => cases hnone.symm.trans hget
  | noted o' lock he hself _ hkey =>
    cases hself.symm.trans hget
    exact ⟨Nat.le_refl _, by rw [he]; exact List.mem_cons_self, hkey⟩

/-- What was told to be remembered is old, or it still is, or something newer. -/
theorem young_told {t : Thread} {s : Shared} {events : List Event} (h : Inv env cfg c)
    (hmemo : ∀ key, MemoStep c.shared t s.memo events key) (he : Told c.shared s t events)
    (hnow : s.now = c.shared.now) {key : List UInt8} {time : Nat} {o : RecentOutcome}
    (hmem : .remembered key time o ∈ events ++ c.trace) : time + failureTtl ≤ s.now ∨
      ∃ time' o', s.memo[key]? = some (time', o') ∧ time ≤ time' := by
  rw [hnow]
  obtain hnew | hbefore := List.mem_append.mp hmem
  · cases he with
    | remembered key' o' hself =>
      cases List.mem_singleton.mp hnew
      exact .inr ⟨c.shared.now, o, hself, Nat.le_refl _⟩
    | nothing => cases hnew
    | _ => cases List.mem_singleton.mp hnew
  · obtain hold | ⟨time', o', hget, hle⟩ := h.young key time o hbefore
    · exact .inl hold
    · cases hmemo key with
      | same hsame => exact .inr ⟨time', o', hsame.trans hget, hle⟩
      | dropped _ hold =>
        have hdropped := hold time' o' hget
        have httl : 0 < failureTtl := by decide
        omega
      | noted o'' lock _ hself _ _ =>
        exact .inr ⟨c.shared.now, o'', hself, by have := (h.memo key time' o' hget).1; omega⟩

/-- A request that is about to guard a key is the only one. -/
theorem apart_move (h : Inv env cfg c) {t t' u : Thread} {s : Shared} (ht : t ∈ c.threads)
    (hu : u ∈ c.threads) (hl : LockStep c.alive c.guarded c.shared s t t') (htu : t.Apart u) :
    t'.Apart u := by
  intro key lock lock' ht' hu'
  obtain hguard | ⟨hwait, hfree⟩ := hl.guards key lock ht'
  · exact htu key lock lock' hguard hu'
  · have hlock := (h.placed t ht key lock (by rw [hwait]; rfl)).1
    have hlock' := (h.placed u hu key lock' (by rw [hu']; rfl)).1
    cases hlock.symm.trans hlock'
    exact Bool.false_ne_true (hfree.symm.trans (guarded_of_guarding hu hu'))

theorem not_ended_op {α : Type} {o : Op} {k : o.Res → Action α} : ¬ Ended (.op o k) := by
  rintro ⟨a, ha⟩
  cases ha

/-- Who has not come to the guard after a step had not come to it before. -/
theorem move_unguarded {alive guarded : Nat → Bool} {s s' : Shared} {t t' : Thread}
    {events : List Event} (hm : Move env cfg alive guarded s t s' t' events)
    (ht : Stage env cfg s.memo t.request t.hold t.calling t.todo)
    (hhold : ∀ key lock, t'.hold ≠ .guarding key lock) (hended : ¬ Ended t'.todo) :
    (∀ key lock, t.hold ≠ .guarding key lock) ∧ ¬ Ended t.todo := by
  cases hm with
  | enter => exact ⟨nofun, not_ended_op⟩
  | acquire id q p key lock hfree => exact absurd rfl (hhold key lock)
  | refuse id q key k lock e hrecent =>
    cases ht with
    | admitting _ hk => exact absurd (hk.refused e) hended
    | filling _ _ _ hp => exact hp.op.1.elim
  | _ => exact ⟨hhold, not_ended_op⟩

theorem inv_move (h : Inv env cfg c) {before after : List Thread} {t t' : Thread} {s : Shared}
    {events : List Event} (hc : c.threads = before ++ t :: after)
    (hm : Move env cfg c.alive c.guarded c.shared t s t' events) :
    Inv env cfg
      { c with shared := s, threads := before ++ t' :: after, trace := events ++ c.trace } := by
  obtain ⟨hid, hreq, hnow⟩ := move_same hm
  have hl := move_locks hm
  have ht : t ∈ c.threads := by rw [hc]; simp
  have hothers : ∀ u ∈ before ++ after, u ∈ c.threads := by
    intro u hu
    rw [hc]
    rcases List.mem_append.mp hu with hu | hu <;> simp [hu]
  have hstage := h.stage t ht
  have hok : MemoOk c.shared.memo := fun key time r hget => (h.memo key time _ hget).2.2 r rfl
  have hmemo := fun key => move_memo hm hstage key
  have htold := move_told hm hstage
  have hasked := asked_told htold
  have hapart : (∀ u ∈ before ++ after, t.Apart u) ∧ (before ++ after).Pairwise Thread.Apart := by
    have hall := h.apart
    rw [hc, List.pairwise_middle Thread.Apart.symm, List.pairwise_cons] at hall
    exact hall
  have hids : (∀ u ∈ before ++ after, t.id ≠ u.id) ∧
      (before ++ after).Pairwise fun t u => t.id ≠ u.id := by
    have hall := h.ids
    rw [hc, List.pairwise_middle (fun hne => Ne.symm hne), List.pairwise_cons] at hall
    exact hall
  constructor
  · obtain hsame | ⟨key, henter⟩ := hl.table
    · exact (congrArg Table.Ok hsame).mpr h.table
    · exact (congrArg Table.Ok henter).mpr (enter_ok h.table)
  · refine forall_mem_middle.mpr ⟨fun key lock href => ⟨?_, ?_⟩, fun u hu key lock href => ?_⟩
    · obtain ⟨hbefore, hsame⟩ | hself := hl.entered key lock href
      · simp only [hsame]
        exact (h.placed t ht key lock hbefore).1
      · exact hself
    · obtain hbefore | hnamed := move_named hm hstage href
      · rw [hreq]
        exact (h.placed t ht key lock hbefore).2
      · exact hnamed
    · refine ⟨?_, (h.placed u (hothers u hu) key lock href).2⟩
      obtain hsame | ⟨key', henter⟩ := hl.table
      · simp only [hsame]
        exact (h.placed u (hothers u hu) key lock href).1
      · simp only [henter]
        exact placed_enter h key' (hothers u hu) href
  · refine (List.pairwise_middle Thread.Apart.symm).mpr (List.pairwise_cons.mpr ⟨?_, hapart.2⟩)
    exact fun u hu => apart_move h ht (hothers u hu) hl (hapart.1 u hu)
  · refine (List.pairwise_middle fun hne => Ne.symm hne).mpr (List.pairwise_cons.mpr ⟨?_, hids.2⟩)
    intro u hu
    rw [hid]
    exact hids.1 u hu
  · refine forall_mem_middle.mpr ⟨?_, fun u hu => h.old u (hothers u hu)⟩
    rw [hid]
    exact h.old t ht
  · intro id q time hmem
    obtain hnew | hbefore := List.mem_append.mp hmem
    · rw [(hasked id q time hnew).1]
      exact h.old t ht
    · exact h.askers id q time hbefore
  · refine forall_mem_middle.mpr ⟨fun hhold hended q time hmem => ?_, fun u hu => ?_⟩
    · obtain ⟨hhold, hended⟩ := move_unguarded hm hstage hhold hended
      obtain hnew | hbefore := List.mem_append.mp hmem
      · obtain ⟨_, key, lock, hguard⟩ := hasked _ q time hnew
        exact hhold key lock hguard
      · rw [hid] at hbefore
        exact h.unasked t ht hhold hended q time hbefore
    · intro hhold hended q time hmem
      obtain hnew | hbefore := List.mem_append.mp hmem
      · exact hids.1 u hu (hasked _ q time hnew).1.symm
      · exact h.unasked u (hothers u hu) hhold hended q time hbefore
  · refine forall_mem_middle.mpr ⟨move_stage hm hok hstage, fun u hu => ?_⟩
    refine stage_frame (h.stage u (hothers u hu)) fun key lock hguard => ?_
    cases hmemo key with
    | same hsame => exact .inl hsame
    | dropped hnone _ => exact .inr hnone
    | noted o lock' _ _ hguard' _ => exact absurd hguard (hapart.1 u hu key lock' lock hguard')
  · exact fun key time o hget => memo_told h hmemo hnow hget
  · exact fun key time o hmem => young_told h hmemo htold hnow hmem
  · exact honest_told h ht htold
  · exact move_size hm h.small

theorem inv_step (hlazy : cfg.mode = .lazy) (h : Inv env cfg c) (hs : Step env chrono cfg c c') :
    Inv env cfg c' := by
  cases hs with
  | arrive q =>
    have hbody : Stage env cfg c.shared.memo q .free false (q.body env chrono cfg) := by
      rcases orderly_body hlazy q with ⟨_, hended⟩ | ⟨key, hkey, hp⟩
      · exact stage_of_ended hended rfl
      · exact .looking hkey hp
    refine ⟨h.table, ?_, ?_, ?_, ?_, ?_, ?_, ?_, h.memo, h.young, h.honest, h.small⟩
    · exact List.forall_mem_cons.mpr ⟨nofun, h.placed⟩
    · exact List.pairwise_cons.mpr ⟨fun u _ => nofun, h.apart⟩
    · exact List.pairwise_cons.mpr ⟨fun u hu => (Nat.ne_of_lt (h.old u hu)).symm, h.ids⟩
    · exact List.forall_mem_cons.mpr
        ⟨Nat.lt_succ_self _, fun u hu => Nat.lt_succ_of_lt (h.old u hu)⟩
    · exact fun id q time hmem => Nat.lt_succ_of_lt (h.askers id q time hmem)
    · refine List.forall_mem_cons.mpr ⟨fun _ _ q time hmem => ?_, h.unasked⟩
      exact Nat.lt_irrefl _ (h.askers _ q time hmem)
    · exact List.forall_mem_cons.mpr ⟨hbody, h.stage⟩
  | move before after t t' s events hc hm => exact inv_move h hc hm
  | leave before after t hc =>
    have hothers : ∀ u ∈ before ++ after, u ∈ c.threads := by
      intro u hu
      rw [hc]
      rcases List.mem_append.mp hu with hu | hu <;> simp [hu]
    have hsub : (before ++ after).Sublist c.threads := by
      rw [hc]
      exact (List.append_sublist_append_left before).mpr (List.sublist_cons_self t after)
    exact ⟨h.table, fun u hu => h.placed u (hothers u hu), h.apart.sublist hsub,
      h.ids.sublist hsub, fun u hu => h.old u (hothers u hu), h.askers,
      fun u hu => h.unasked u (hothers u hu),
      fun u hu => h.stage u (hothers u hu), h.memo, h.young, h.honest, h.small⟩
  | tick d =>
    refine ⟨h.table, h.placed, h.apart, h.ids, h.old, h.askers, h.unasked, h.stage, ?_, ?_,
      h.honest, h.small⟩
    · intro key time o hget
      obtain ⟨hle, hrest⟩ := h.memo key time o hget
      exact ⟨Nat.le_trans hle (Nat.le_add_right _ d), hrest⟩
    · intro key time o hmem
      refine (h.young key time o hmem).imp_left fun hold => ?_
      exact Nat.le_trans hold (Nat.le_add_right _ d)
  | setClock unix =>
    exact ⟨h.table, h.placed, h.apart, h.ids, h.old, h.askers, h.unasked, h.stage, h.memo, h.young,
      h.honest, h.small⟩
  | interfere db =>
    exact ⟨h.table, h.placed, h.apart, h.ids, h.old, h.askers, h.unasked, h.stage, h.memo, h.young,
      h.honest, h.small⟩
  | enterRefetch platform =>
    refine ⟨enter_ok h.table, fun t ht key lock href => ?_, h.apart, h.ids, h.old, h.askers,
      h.unasked, h.stage, h.memo, h.young, h.honest, h.small⟩
    exact ⟨placed_enter h _ ht href, (h.placed t ht key lock href).2⟩
  | leaveRefetch lock =>
    exact ⟨h.table, h.placed, h.apart, h.ids, h.old, h.askers, h.unasked, h.stage, h.memo, h.young,
      h.honest, h.small⟩

theorem inv_reachable (hlazy : cfg.mode = .lazy) (h : Reachable Start (Step env chrono cfg) c) :
    Inv env cfg c :=
  invariant (P := fun c => Inv env cfg c) (fun _ => inv_start) (fun _ _ => inv_step hlazy) h

end Invariant

section Behind

variable (env : Env) (chrono : Chrono) (cfg : Cache.Config) (key : List UInt8) (row : Row)

/-- The row stays where it was written, and is valid for all that ask for its
key. -/
structure Kept (c : State) : Prop where
  here : c.shared.db[key]? = some row
  young : fresh cfg c.shared.unix row = true
  serves : ∀ t ∈ c.threads, t.request.key env cfg = some key →
    ∃ a, t.request.serves env cfg row = some a

def KeptStep (c c' : State) : Prop := Step env chrono cfg c c' ∧ Kept env cfg key row c'

/-- A request that answers from the row and asks for nothing. -/
structure Passing (t : Thread) : Prop where
  quiet : t.calling = false
  reads : ∃ a, t.request.serves env cfg row = some a ∧
    ((∃ past, Safe (reading env cfg key row) (fun _ r => r = .ok a) t.todo past) ∨
      ∃ k : Except PccsError Unit → Attempt t.request.Reply, t.todo = .op (.keyLock key) k ∧
        ∃ past, Safe (reading env cfg key row) (fun _ r => r = .ok a) (k (.ok ())) past)

/-- The state of a run after a record was written, for a request that waits. -/
structure Behind (id : Nat) (c : State) : Prop where
  nothing : c.shared.memo[key]? = none
  guards : ∀ t ∈ c.threads, ∀ lock, t.hold = .guarding key lock →
    (Ended t.todo ∧ t.calling = false ∧ t.id ≠ id) ∨ Passing env cfg key row t
  waits : ∀ t ∈ c.threads, t.id = id →
    ∃ lock, t.hold = .waiting key lock ∨ t.hold = .guarding key lock
  old : id < c.nextId
  unasked : ∀ q time, .asked id q time ∉ c.trace

variable {env chrono cfg key row}
variable {alive guarded : Nat → Bool} {s s' : Shared} {t t' : Thread} {events : List Event}
  {c c' : State} {id : Nat}

theorem safe_step {α : Type} {o : Op} {k : o.Res → Attempt α} {a : α}
    {past : List (Process.Event Op Op.Res)} {st' : Database × Nat}
    (h : Safe (reading env cfg key row) (fun _ r => r = .ok a) (.op o k) past)
    (st : Database × Nat) (hrow : st.1[key]? = some row) (hfresh : fresh cfg st.2 row = true)
      (r : o.Res)
    (hr : performAt env cfg st o r st') : (o.inStore = true ∨ o = .recentNon200 key) ∧
      Safe (reading env cfg key row) (fun _ r => r = .ok a) (k r) (⟨o, r⟩ :: past) := by
  obtain ⟨_, hguar, hrest⟩ := h st r st' ⟨hrow, hfresh⟩ hr
  exact ⟨hguar, hrest⟩

/-- Nothing is asked, locked or remembered while a valid row is read. -/
theorem safe_only_reads {α : Type} {o : Op} {k : o.Res → Attempt α} {a : α}
    {past : List (Process.Event Op Op.Res)}
    (h : Safe (reading env cfg key row) (fun _ r => r = .ok a) (.op o k) past)
    (st : Database × Nat) (hrow : st.1[key]? = some row) (hfresh : fresh cfg st.2 row = true) :
    o.inStore = true ∨ o = .recentNon200 key := by
  cases o with
  | fetch f => exact (safe_step h st hrow hfresh (Except.error noCacheData) ⟨rfl, rfl⟩).1
  | keyLock key' => exact (safe_step h st hrow hfresh (Except.ok ()) ⟨rfl, rfl⟩).1
  | remember key' e => exact (safe_step h st hrow hfresh () ⟨rfl, rfl⟩).1
  | rememberResponse key' resp => exact (safe_step h st hrow hfresh () ⟨rfl, rfl⟩).1
  | recentNon200 key' => exact (safe_step h st hrow hfresh none ⟨rfl, rfl⟩).1
  | _ => exact .inl rfl

/-- A request that has ended and holds a guard can only leave. -/
theorem no_move_of_ended (hm : Move env cfg alive guarded s t s' t' events) (h : Ended t.todo)
    (hold : t.hold.waits = false) : False := by
  obtain ⟨r, hr⟩ := h
  cases hm <;> first | cases hr | cases hold

/-- A request that answers from the row keeps its guard and goes on so. -/
theorem move_passing (hm : Move env cfg alive guarded s t s' t' events)
    (hp : Passing env cfg key row t) {lock : Nat} (hguard : t.hold = .guarding key lock)
    (hmemo : s.memo[key]? = none) (hrow : s.db[key]? = some row)
    (hfresh : fresh cfg s.unix row = true) :
    Passing env cfg key row t' ∧ t'.hold = .guarding key lock ∧
      ∀ e ∈ events, ∃ id q, e = .stored id q := by
  have hquiet : ∀ o, (s.recent key).1 ≠ some o := by
    intro o ho
    obtain ⟨_, had, hget, _⟩ := recent_some ho
    cases hmemo.symm.trans hget
  obtain ⟨hcalling, a, ha, hreads⟩ := hp
  cases hm with
  | enter => cases hguard
  | acquire => cases hguard
  | refuse id q key' k lock' e hrecent =>
    cases hguard
    exact absurd hrecent (hquiet _)
  | pass id q key' k lock' hrecent =>
    cases hguard
    refine ⟨⟨rfl, a, ha, .inl ?_⟩, rfl, nofun⟩
    obtain ⟨past, hsafe⟩ | ⟨k', hk', past, hsafe⟩ := hreads
    · cases safe_only_reads hsafe (s.db, s.unix) hrow hfresh <;> contradiction
    · cases hk'
      exact ⟨past, hsafe⟩
  | relay id q key' k hold r hrecent =>
    obtain ⟨past, hsafe⟩ | ⟨k', hk', past, hsafe⟩ := hreads
    · obtain h | h := safe_only_reads hsafe (s.db, s.unix) hrow hfresh
      · cases h
      · cases h
        exact absurd hrecent (hquiet _)
    · cases hk'
  | proceed id q key' k hold hrecent =>
    obtain ⟨past, hsafe⟩ | ⟨k', hk', past, hsafe⟩ := hreads
    · obtain ⟨_, hrest⟩ := safe_step hsafe (s.db, s.unix) hrow hfresh none ⟨rfl, rfl⟩
      exact ⟨⟨rfl, a, ha, .inl ⟨_, hrest⟩⟩, hguard, nofun⟩
    · cases hk'
  | send id q f k hold =>
    obtain ⟨past, hsafe⟩ | ⟨k', hk', past, hsafe⟩ := hreads
    · cases safe_only_reads hsafe (s.db, s.unix) hrow hfresh <;> contradiction
    · cases hk'
  | answer id q f k hold r => cases hcalling
  | remember id q o k hold r key' outcome ho =>
    have hstore : o.inStore = false := by
      cases o <;> first | rfl | cases ho
    obtain ⟨past, hsafe⟩ | ⟨k', hk', past, hsafe⟩ := hreads
    · obtain h | rfl := safe_only_reads hsafe (s.db, s.unix) hrow hfresh
      · cases hstore.symm.trans h
      · cases ho
    · cases hk'
      cases ho
  | access id q o k hold r db ho hperform =>
    obtain ⟨past, hsafe⟩ | ⟨k', hk', past, hsafe⟩ := hreads
    · obtain ⟨_, hrest⟩ := safe_step hsafe (s.db, s.unix) hrow hfresh r hperform
      refine ⟨⟨rfl, a, ha, .inl ⟨_, hrest⟩⟩, hguard, ?_⟩
      intro e he
      split at he
      · exact ⟨id, q, List.mem_singleton.mp he⟩
      · cases he
    · cases hk'
      cases ho

/-- A request that waits can only take the guard. -/
theorem move_waiting (hm : Move env cfg alive guarded s t s' t' events)
    (ht : Stage env cfg s.memo t.request t.hold t.calling t.todo) {lock : Nat}
    (hwait : t.hold = .waiting key lock) : t'.hold = .guarding key lock ∧ events = [] ∧
      ∀ row, (∃ a, t.request.serves env cfg row = some a) → Passing env cfg key row t' := by
  cases hm with
  | acquire id q p key' lock' hfree =>
    cases hwait
    refine ⟨rfl, rfl, fun row ⟨a, ha⟩ => ?_⟩
    have hread : ∃ k, p = .op (.keyLock key) k ∧ Locks env cfg (q.serves env cfg) key k := by
      change Stage env cfg s.memo q (.waiting key lock) false p at ht
      generalize hhold : Hold.waiting key lock = hold at ht
      cases ht with
      | ended _ hhold' r =>
        rw [← hhold] at hhold'
        cases hhold'
      | waiting lock' hk =>
        cases hhold
        exact ⟨_, rfl, hk⟩
      | _ => cases hhold
    obtain ⟨k, rfl, hk⟩ := hread
    exact ⟨rfl, a, ha, .inr ⟨k, rfl, [], hk.reads row a ha⟩⟩
  | enter => cases hwait
  | refuse => cases hwait
  | pass => cases hwait
  | relay =>
    cases hwait
    cases ht
  | proceed =>
    cases hwait
    cases ht
  | send =>
    cases hwait
    cases ht
  | answer =>
    cases hwait
    cases ht
  | remember id q o k hold r key' outcome ho =>
    cases hwait
    cases ht
    cases ho
  | access id q o k hold r db ho hperform =>
    cases hwait
    cases ht
    cases ho

/-- A request that has written its record is the one that guards its key, and has
nothing left to do. -/
theorem move_stored (hm : Move env cfg alive guarded s t s' t' events)
    (ht : Stage env cfg s.memo t.request t.hold t.calling t.todo) {writer : Nat} {q : Lookup}
    (he : events = [.stored writer q]) : q = t.request ∧ Ended t'.todo ∧ t'.calling = false ∧
      t'.hold = t.hold ∧ s'.memo = s.memo ∧
      ∃ guardedKey lock, t.hold = .guarding guardedKey lock ∧ s.memo[guardedKey]? = none := by
  cases hm with
  | access id q' o k hold r db ho hperform =>
    split at he
    · rename_i hwrote
      cases he
      have hfinal : final o r = true := by
        cases o <;> first | exact hwrote | cases ho
      cases ht with
      | looking hkey hp =>
        cases hp with
        | look hplain hk => cases hwrote.symm.trans (hplain.2 r)
        | lock hk => cases ho
      | waiting _ hk => cases ho
      | admitting _ hk => cases ho
      | checking _ _ _ _ _ => cases ho
      | filling lock _ hmemo hp =>
        obtain ⟨_, hnot⟩ | hended := hp.op.2 r
        · cases hfinal.symm.trans hnot
        · exact ⟨rfl, hended, rfl, rfl, rfl, _, lock, rfl, hmemo⟩
    · cases he
  | remember id q' o k hold r key' outcome ho =>
    obtain ⟨hnoted, _⟩ | ⟨hnoted, _⟩ := noted_cases s key' outcome
    · cases hnoted.symm.trans he
    · cases hnoted.symm.trans he
  | _ => cases he

theorem eq_of_id (h : Inv env cfg c) {t u : Thread} (ht : t ∈ c.threads) (hu : u ∈ c.threads)
    (hid : t.id = u.id) : t = u := by
  have hsymm : Std.Symm fun t u : Thread => t.id ≠ u.id := ⟨fun _ _ hne => Ne.symm hne⟩
  by_contra hne
  exact h.ids.forall ht hu hne hid

theorem not_ended_of_waiting {memo : Memo (List UInt8) RecentOutcome} {q : Lookup} {hold : Hold}
    {calling : Bool} {p : Attempt q.Reply} (h : Stage env cfg memo q hold calling p) {lock : Nat}
    (hwait : hold = .waiting key lock) : ¬ Ended p := by
  subst hwait
  cases h with
  | ended _ hhold r => cases hhold
  | waiting _ hk => exact not_ended_op

/-- A record was just written for a key that another request waits for. -/
theorem behind_start (h : Inv env cfg c) (h' : Inv env cfg c') (hs : Step env chrono cfg c c')
    {writer : Nat} {q : Lookup} (htrace : c'.trace = .stored writer q :: c.trace)
    (hkey : q.key env cfg = some key) {b : Thread} (hb : b ∈ c'.threads) {lock : Nat}
    (hwait : b.hold = .waiting key lock) : Behind env cfg key row b.id c' := by
  cases hs with
  | move before after t t' s events hc hm =>
    have he : events = [.stored writer q] := List.append_cancel_right htrace
    have ht : t ∈ c.threads := by rw [hc]; simp
    obtain ⟨rfl, hended, hcalling, hhold, hmemo, guardedKey, lock', hguard, hnone⟩ :=
      move_stored hm (h.stage t ht) he
    have hnamed := (h.placed t ht guardedKey lock' (by rw [hguard]; rfl)).2
    cases hnamed.symm.trans hkey
    have hguard' : t'.hold = .guarding key lock' := hhold.trans hguard
    have ht' : t' ∈ before ++ t' :: after := by simp
    have hne : t'.id ≠ b.id := by
      intro hid
      cases eq_of_id h' ht' hb hid
      cases hwait.symm.trans hguard'
    refine ⟨(congrArg (·[key]?) hmemo).trans hnone, ?_, fun u hu hid => ?_, h'.old b hb,
      h'.unasked b hb (by simp [hwait]) (not_ended_of_waiting (h'.stage b hb) hwait)⟩
    · have hapart := h'.apart
      rw [List.pairwise_middle Thread.Apart.symm, List.pairwise_cons] at hapart
      refine forall_mem_middle.mpr ⟨fun _ _ => .inl ⟨hended, hcalling, hne⟩, fun u hu l hl => ?_⟩
      exact absurd hl (hapart.1 u hu key lock' l hguard')
    · cases eq_of_id h' hu hb hid
      exact ⟨lock, .inl hwait⟩
  | _ => exact absurd htrace.symm (List.cons_ne_self _ _)

theorem behind_move (h : Inv env cfg c) (hk : Kept env cfg key row c)
    (hb : Behind env cfg key row id c) {before after : List Thread}
    (hc : c.threads = before ++ t :: after)
    (hm : Move env cfg c.alive c.guarded c.shared t s' t' events) :
    Behind env cfg key row id
      { c with shared := s', threads := before ++ t' :: after, trace := events ++ c.trace } := by
  have ht : t ∈ c.threads := by rw [hc]; simp
  have hothers : ∀ u ∈ before ++ after, u ∈ c.threads := by
    intro u hu
    rw [hc]
    rcases List.mem_append.mp hu with hu | hu <;> simp [hu]
  have hstage := h.stage t ht
  have hid := (move_same hm).1
  have hguards := fun u hu => hb.guards u (hothers u hu)
  have hwaits := fun u hu => hb.waits u (hothers u hu)
  -- a request that guards the key answers from the row, or has ended
  by_cases hguard : ∃ lock, t.hold = .guarding key lock
  · obtain ⟨lock, hguard⟩ := hguard
    obtain ⟨hended, _, _⟩ | hpass := hb.guards t ht lock hguard
    · exact (no_move_of_ended hm hended (by rw [hguard]; rfl)).elim
    obtain ⟨hpass', hguard', hstored⟩ :=
      move_passing hm hpass hguard hb.nothing hk.here hk.young
    refine ⟨?_, ?_, ?_, hb.old, fun q time hmem => ?_⟩
    · cases move_memo hm hstage key with
      | same hsame => exact hsame.trans hb.nothing
      | dropped hnone _ => exact hnone
      | noted o lock' he _ _ _ =>
        obtain ⟨_, _, hcontra⟩ := hstored _ (by rw [he]; exact List.mem_singleton.mpr rfl)
        cases hcontra
    · exact forall_mem_middle.mpr ⟨fun _ _ => .inr hpass', hguards⟩
    · exact forall_mem_middle.mpr ⟨fun _ => ⟨lock, .inr hguard'⟩, hwaits⟩
    · obtain hnew | hold := List.mem_append.mp hmem
      · obtain ⟨_, _, hcontra⟩ := hstored _ hnew
        cases hcontra
      · exact hb.unasked q time hold
  · have hnot : ∀ lock, t.hold ≠ .guarding key lock := fun lock hl => hguard ⟨lock, hl⟩
    refine ⟨?_, ?_, ?_, hb.old, fun q time hmem => ?_⟩
    · cases move_memo hm hstage key with
      | same hsame => exact hsame.trans hb.nothing
      | dropped hnone _ => exact hnone
      | noted o lock' _ _ hl _ => exact absurd hl (hnot lock')
    · refine forall_mem_middle.mpr ⟨fun lock hl => .inr ?_, hguards⟩
      obtain hl | ⟨hwait, _⟩ := (move_locks hm).guards key lock hl
      · exact absurd hl (hnot lock)
      · refine (move_waiting hm hstage hwait).2.2 row (hk.serves t ht ?_)
        exact (h.placed t ht key lock (by rw [hwait]; rfl)).2
    · refine forall_mem_middle.mpr ⟨fun hid' => ?_, hwaits⟩
      obtain ⟨lock, hwait | hl⟩ := hb.waits t ht (hid.symm.trans hid')
      · exact ⟨lock, .inr (move_waiting hm hstage hwait).1⟩
      · exact absurd hl (hnot lock)
    · obtain hnew | hold := List.mem_append.mp hmem
      · cases move_told hm hstage with
        | asked key' lock' hl _ =>
          cases List.mem_singleton.mp hnew
          obtain ⟨lock, hwait | hl'⟩ := hb.waits t ht rfl
          · cases hwait.symm.trans hl
          · exact absurd hl' (hnot lock)
        | nothing => cases hnew
        | _ => cases List.mem_singleton.mp hnew
      · exact hb.unasked q time hold

theorem behind_step (h : Inv env cfg c) (hk : Kept env cfg key row c)
    (hb : Behind env cfg key row id c) (hs : Step env chrono cfg c c') :
    Behind env cfg key row id c' := by
  cases hs with
  | arrive q =>
    refine ⟨hb.nothing, ?_, ?_, Nat.lt_succ_of_lt hb.old, hb.unasked⟩
    · exact List.forall_mem_cons.mpr ⟨nofun, hb.guards⟩
    · refine List.forall_mem_cons.mpr ⟨fun hid => ?_, hb.waits⟩
      exact absurd hid (Nat.ne_of_lt hb.old).symm
  | move before after t t' s events hc hm => exact behind_move h hk hb hc hm
  | leave before after t hc =>
    have hothers : ∀ u ∈ before ++ after, u ∈ c.threads := by
      intro u hu
      rw [hc]
      rcases List.mem_append.mp hu with hu | hu <;> simp [hu]
    exact ⟨hb.nothing, fun u hu => hb.guards u (hothers u hu),
      fun u hu => hb.waits u (hothers u hu), hb.old, hb.unasked⟩
  | _ => exact ⟨hb.nothing, hb.guards, hb.waits, hb.old, hb.unasked⟩

end Behind

section Theorem

variable (env : Env) (chrono : Chrono) (cfg : Cache.Config)

/-- Whoever waits for the guard of a key while a record is written under it asks
for nothing as long as the record is kept, and answers with it. -/
def Served (c : State) : Prop :=
  ∀ c₁ writer q key row, Step env chrono cfg c c₁ → c₁.trace = .stored writer q :: c.trace →
    q.key env cfg = some key → Kept env cfg key row c₁ →
    ∀ b ∈ c₁.threads, (∃ lock, b.hold = .waiting key lock) →
    ∀ c₂, Relation.ReflTransGen (KeptStep env chrono cfg key row) c₁ c₂ →
      (∀ q' time, .asked b.id q' time ∉ c₂.trace) ∧
      ∀ t ∈ c₂.threads, t.id = b.id → t.calling = false ∧
        ∀ r, t.todo = .ret r → ∃ a, t.request.serves env cfg row = some a ∧ r = .ok a

/-- What holds of a state of any run. -/
structure Single (c : State) : Prop where
  /-- No two requests guard one key, and each guards its own. -/
  apart : c.threads.Pairwise Thread.Apart
  own : ∀ t ∈ c.threads, ∀ key lock, t.hold = .guarding key lock →
    t.request.key env cfg = some key
  /-- Calls in flight are made under the guard, so they are for different keys. -/
  calls : ∀ t ∈ c.threads, t.calling = true → ∃ key lock, t.hold = .guarding key lock
  flights : c.threads.Pairwise fun t u => t.calling = true → u.calling = true →
    t.request.key env cfg ≠ u.request.key env cfg
  served : Served env chrono cfg c
  outcomes : ∀ later e earlier, c.trace = later ++ e :: earlier → Justified env cfg earlier e
  bounded : c.shared.memo.size ≤ 1024

variable {env chrono cfg} {c : State}

theorem guarding_of_calling {memo : Memo (List UInt8) RecentOutcome} {q : Lookup} {hold : Hold}
    {calling : Bool} {p : Attempt q.Reply} (h : Stage env cfg memo q hold calling p)
    (hcalling : calling = true) : ∃ key lock, hold = .guarding key lock := by
  cases h with
  | filling lock calling hmemo hp => exact ⟨_, lock, rfl⟩
  | _ => cases hcalling

theorem behind_run (hlazy : cfg.mode = .lazy) {key : List UInt8} {row : Row} {id : Nat}
    {c₁ c₂ : State} (h : Inv env cfg c₁) (hk : Kept env cfg key row c₁)
    (hb : Behind env cfg key row id c₁)
    (hrun : Relation.ReflTransGen (KeptStep env chrono cfg key row) c₁ c₂) :
    Inv env cfg c₂ ∧ Kept env cfg key row c₂ ∧ Behind env cfg key row id c₂ := by
  induction hrun with
  | refl => exact ⟨h, hk, hb⟩
  | tail _ hstep ih =>
    obtain ⟨h', hk', hb'⟩ := ih
    exact ⟨inv_step hlazy h' hstep.1, hstep.2, behind_step h' hk' hb' hstep.1⟩

/-- At its end a request that was behind a record has answered with it. -/
theorem behind_answers {key : List UInt8} {row : Row} {id : Nat} (h : Inv env cfg c)
    (hb : Behind env cfg key row id c) {t : Thread} (ht : t ∈ c.threads) (hid : t.id = id) :
    t.calling = false ∧
      ∀ r, t.todo = .ret r → ∃ a, t.request.serves env cfg row = some a ∧ r = .ok a := by
  obtain ⟨lock, hwait | hguard⟩ := hb.waits t ht hid
  · refine ⟨?_, fun r hr => ?_⟩
    · cases hcalling : t.calling with
      | false => rfl
      | true =>
        obtain ⟨key', lock', hguard⟩ := guarding_of_calling (h.stage t ht) hcalling
        cases hwait.symm.trans hguard
    · exact absurd ⟨r, hr⟩ (not_ended_of_waiting (h.stage t ht) hwait)
  · obtain ⟨_, _, hne⟩ | ⟨hcalling, a, ha, hreads⟩ := hb.guards t ht lock hguard
    · exact absurd hid hne
    · refine ⟨hcalling, fun r hr => ⟨a, ha, ?_⟩⟩
      obtain ⟨past, hsafe⟩ | ⟨k, hk, _⟩ := hreads
      · rw [hr] at hsafe
        exact hsafe
      · cases hk.symm.trans hr

theorem served_of_inv (hlazy : cfg.mode = .lazy) (h : Inv env cfg c) : Served env chrono cfg c := by
  intro c₁ writer q key row hs htrace hkey hk b hb hwait c₂ hrun
  obtain ⟨lock, hwait⟩ := hwait
  have h₁ := inv_step hlazy h hs
  obtain ⟨h₂, _, hbehind⟩ :=
    behind_run hlazy h₁ hk (behind_start h h₁ hs htrace hkey hb hwait) hrun
  exact ⟨hbehind.unasked, fun t ht hid => behind_answers h₂ hbehind ht hid⟩

/-- In every state of every run of lookups side by side there is one flight for a
key, whoever waits for a record is served with it, outcomes are replayed in time
and for their own keys, and their number is bounded. -/
theorem single_flight (hlazy : cfg.mode = .lazy) (h : Reachable Start (Step env chrono cfg) c) :
    Single env chrono cfg c := by
  have hinv := inv_reachable hlazy h
  have hown : ∀ t ∈ c.threads, ∀ key lock, t.hold = .guarding key lock →
      t.request.key env cfg = some key :=
    fun t ht key lock hguard => (hinv.placed t ht key lock (by rw [hguard]; rfl)).2
  have hcalls : ∀ t ∈ c.threads, t.calling = true → ∃ key lock, t.hold = .guarding key lock :=
    fun t ht hcalling => guarding_of_calling (hinv.stage t ht) hcalling
  refine ⟨hinv.apart, hown, hcalls, ?_, served_of_inv hlazy hinv,
    fun later e earlier he => honest_mem hinv.honest he, hinv.small⟩
  refine hinv.apart.imp_of_mem fun ht hu hapart hcalling hcalling' hkey => ?_
  obtain ⟨key, lock, hguard⟩ := hcalls _ ht hcalling
  obtain ⟨key', lock', hguard'⟩ := hcalls _ hu hcalling'
  rw [hown _ ht key lock hguard, hown _ hu key' lock' hguard'] at hkey
  cases hkey
  exact hapart key lock lock' hguard hguard'

end Theorem

section Witness

def lazyCfg : Cache.Config := { offlineCfg with mode := .lazy }

/-- The part of a lookup of the root CA CRL that comes to the lock. -/
def lockedRootcacrl : Attempt (List UInt8) :=
  lookupLocked Keys.rootcacrl (act .getRootcacrl) (fetchRootcacrl lazyCfg)
    fun rec => act (.put (putRootcacrl rec))

theorem getRootcacrl_lazyCfg : getRootcacrlRequest lazyCfg 4 =
    (act .getRootcacrl).bind fun
      | some rec => .ret (.ok rec)
      | none => lockedRootcacrl := by
  rw [getRootcacrlRequest, lookupDocument]
  congr 1
  funext found
  cases found <;> rfl

/-- A lookup of the root CA CRL after it has found nothing in the store. -/
def behindStore (id : Nat) (hold : Hold) : Thread :=
  ⟨id, .rootcacrl 4, lockedRootcacrl, hold, false⟩

def crowdShared (table : Table (List UInt8)) : Shared := ⟨∅, 0, 0, table, ∅⟩

/-- A lookup that has just arrived finds nothing and comes to the lock. -/
theorem step_looked (table : Table (List UInt8)) (before after : List Thread) (id next : Nat) :
    Step Keys.plainEnv noon lazyCfg
      ⟨crowdShared table, before ++ ⟨id, .rootcacrl 4,
        (Lookup.rootcacrl 4).body Keys.plainEnv noon lazyCfg, .free, false⟩ :: after, [], next, []⟩
      ⟨crowdShared table, before ++ behindStore id .free :: after, [], next, []⟩ := by
  have hbody : (Lookup.rootcacrl 4).body Keys.plainEnv noon lazyCfg = .op .getRootcacrl fun
      | some rec => .ret (.ok rec)
      | none => lockedRootcacrl := getRootcacrl_lazyCfg
  refine .move _ before after _ (behindStore id .free) (crowdShared table) [] rfl ?_
  rw [hbody]
  refine .access _ id (.rootcacrl 4) .getRootcacrl _ .free none ∅ rfl ⟨⟨?_, rfl⟩, rfl⟩
  change none = getRootcacrl ∅
  simp [getRootcacrl]

/-- Of two lookups one guards the key and the other waits. -/
theorem reachable_crowd : ∃ c, Reachable Start (Step Keys.plainEnv noon lazyCfg) c ∧
    ∃ t u lock lock', c.threads = [t, u] ∧ t.hold = .guarding Keys.rootcacrl lock ∧
      u.hold = .waiting Keys.rootcacrl lock' := by
  have h₀ : Reachable Start (Step Keys.plainEnv noon lazyCfg)
      ⟨crowdShared .empty, [], [], 0, []⟩ := reachable_start ⟨rfl, rfl, rfl, rfl, rfl⟩
  have h₁ := reachable_step h₀ (.arrive _ (.rootcacrl 4))
  have h₂ := reachable_step h₁ (.arrive _ (.rootcacrl 4))
  have h₃ := reachable_step h₂ (step_looked .empty [] _ 1 2)
  have h₄ := reachable_step h₃ (step_looked .empty [behindStore 1 .free] [] 0 2)
  have h₅ := reachable_step h₄ (.move _ [] [behindStore 0 .free] _ _ _ _ rfl
    (.enter _ 1 (.rootcacrl 4) Keys.rootcacrl _))
  have h₆ := reachable_step h₅ (.move _ [_] [] _ _ _ _ rfl
    (.enter _ 0 (.rootcacrl 4) Keys.rootcacrl _))
  have h₇ := reachable_step h₆ (.move _ [] [_] _ _ _ _ rfl
    (.acquire _ 1 (.rootcacrl 4) _ Keys.rootcacrl _ rfl))
  exact ⟨_, h₇, _, _, _, _, rfl, rfl, rfl⟩

theorem single_flight_crowd : ∃ c, (∃ t u lock lock', c.threads = [t, u] ∧
    t.hold = .guarding Keys.rootcacrl lock ∧ u.hold = .waiting Keys.rootcacrl lock') ∧
    Single Keys.plainEnv noon lazyCfg c := by
  obtain ⟨c, hreach, hcrowd⟩ := reachable_crowd
  exact ⟨c, hcrowd, single_flight rfl hreach⟩

end Witness

end Pccs.SingleFlight
