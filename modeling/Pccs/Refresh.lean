import Pccs.Validate
import Pccs.Runs
import Mathlib.Logic.Function.Basic

/-!
# Concurrent refreshes

Callers that ask for the same target share one run: the first of them puts the
receiver of a watch channel into a map, takes the refresh lock, runs, publishes
its result and removes the entry; the others wait on the channel. A caller may
be dropped at each of its awaits, with everything it holds.
-/
namespace Pccs.Refresh

open Text PccsError Runs

def refreshTarget (mode : CacheMode) (typ fmspc : Option String) : Except PccsError String := do
  let certsFmspc ← match typ with
    | some "certs" => (Validate.fmspc fmspc).map some
    | some _ => .error invalidReq
    | none => .ok none
  if mode = .offline then throw serviceUnavailable
  return match certsFmspc with
    | some f => "certs:" ++ toAsciiUppercase f
    | none => "collateral"

abbrev Channel : Type := Nat

/-- Where a caller awaits. `last` is the channel whose sender it found gone in
the iteration before, and `own` a channel it made but did not publish. -/
inductive Pc where
  /-- for the map, to look its target up -/
  | look (last : Option Channel)
  /-- for a result on somebody's channel -/
  | wait (last : Option Channel) (own : Option Channel) (ch : Channel)
  /-- for the map, to insert its own channel -/
  | claim (last : Option Channel) (own : Channel)
  /-- for the refresh lock -/
  | lock (own : Channel)
  /-- for the refresh itself, holding the lock -/
  | run (own : Channel)
  /-- for the map, to remove the entry -/
  | remove (own : Channel)
deriving DecidableEq

/-- The channel whose sender the caller holds. -/
def Pc.sender : Pc → Option Channel
  | .look _ => none
  | .wait _ own _ => own
  | .claim _ own => some own
  | .lock own => some own
  | .run own => some own
  | .remove own => some own

structure Caller where
  target : String
  pc : Pc

/-- Who holds the refresh lock. -/
inductive Holder where
  | caller (i : Nat)
  | scheduled
deriving DecidableEq

structure State where
  callers : Nat → Option Caller
  inflight : String → Option Channel
  published : Channel → Option (Except PccsError Unit)
  refreshLock : Option Holder
  next : Channel

def initial : State := ⟨fun _ => none, fun _ => none, fun _ => none, none, 0⟩

/-- Some live caller still holds the sender of the channel. -/
def State.SenderAlive (s : State) (ch : Channel) : Prop :=
  ∃ i c, s.callers i = some c ∧ c.pc.sender = some ch

def State.move (s : State) (i : Nat) (target : String) (pc : Pc) : State :=
  { s with callers := Function.update s.callers i (some ⟨target, pc⟩) }

/-- The caller is gone; the lock guard goes with it. -/
def State.drop (s : State) (i : Nat) : State :=
  { s with
    callers := Function.update s.callers i none
    refreshLock := if s.refreshLock = some (.caller i) then none else s.refreshLock }

/-- One poll of one caller up to its next await, or a caller coming or going. -/
inductive Step (mode : CacheMode) (s : State) : State → Prop
  | arrive (i : Nat) (typ fmspc : Option String) (target : String) (hi : s.callers i = none)
      (ht : refreshTarget mode typ fmspc = .ok target) :
      Step mode s (s.move i target (.look none))
  | lookFound (i : Nat) (target : String) (last : Option Channel) (ch : Channel)
      (hi : s.callers i = some ⟨target, .look last⟩) (hm : s.inflight target = some ch) :
      Step mode s (s.move i target (.wait last none ch))
  | lookAbsent (i : Nat) (target : String) (last : Option Channel)
      (hi : s.callers i = some ⟨target, .look last⟩) (hm : s.inflight target = none) :
      Step mode s { s.move i target (.claim last s.next) with next := s.next + 1 }
  | waitPublished (i : Nat) (target : String) (last own : Option Channel) (ch : Channel)
      (result : Except PccsError Unit) (hi : s.callers i = some ⟨target, .wait last own ch⟩)
      (hr : s.published ch = some result) : Step mode s (s.drop i)
  | waitGone (i : Nat) (target : String) (last own : Option Channel) (ch : Channel)
      (hi : s.callers i = some ⟨target, .wait last own ch⟩) (hr : s.published ch = none)
      (hg : ¬ s.SenderAlive ch) : Step mode s (s.move i target (.look (some ch)))
  | claimLost (i : Nat) (target : String) (last : Option Channel) (own ch : Channel)
      (hi : s.callers i = some ⟨target, .claim last own⟩) (hm : s.inflight target = some ch) :
      Step mode s (s.move i target (.wait last (some own) ch))
  | claimWon (i : Nat) (target : String) (last : Option Channel) (own : Channel)
      (hi : s.callers i = some ⟨target, .claim last own⟩) (hm : s.inflight target = none) :
      Step mode s { s.move i target (.lock own) with
        inflight := Function.update s.inflight target (some own) }
  | acquire (i : Nat) (target : String) (own : Channel)
      (hi : s.callers i = some ⟨target, .lock own⟩) (hl : s.refreshLock = none) :
      Step mode s { s.move i target (.run own) with refreshLock := some (.caller i) }
  | publish (i : Nat) (target : String) (own : Channel) (result : Except PccsError Unit)
      (hi : s.callers i = some ⟨target, .run own⟩) :
      Step mode s { s.move i target (.remove own) with
        published := Function.update s.published own (some result) }
  | finish (i : Nat) (target : String) (own : Channel)
      (hi : s.callers i = some ⟨target, .remove own⟩) :
      Step mode s { s.drop i with inflight := Function.update s.inflight target none }
  | scheduleStart (hl : s.refreshLock = none) :
      Step mode s { s with refreshLock := some .scheduled }
  | scheduleEnd (hl : s.refreshLock = some .scheduled) : Step mode s { s with refreshLock := none }
  | cancel (i : Nat) (c : Caller) (hi : s.callers i = some c) : Step mode s (s.drop i)

/-- The caller is between inserting its channel and publishing on it. -/
def Pc.Owes (pc : Pc) (ch : Channel) : Prop :=
  pc = .lock ch ∨ pc = .run ch

/-- A live caller of the target holds the sender and has the removal of the
entry ahead, or the channel holds a result. -/
def Owned (s : State) : Prop :=
  ∀ target ch, s.inflight target = some ch →
    (∃ i pc, s.callers i = some ⟨target, pc⟩ ∧ (pc.Owes ch ∨ pc = .remove ch)) ∨
      (s.published ch).isSome

/-- Some caller finds the sender of one channel gone for the second time in a row. -/
def Spins (s : State) : Prop :=
  ∃ i target own ch, s.callers i = some ⟨target, .wait (some ch) own ch⟩ ∧
    s.published ch = none ∧ ¬ s.SenderAlive ch

/-- No caller goes away between inserting its channel and publishing on it. -/
def KeepsOwners (s s' : State) : Prop :=
  ∀ i c ch, s.callers i = some c → c.pc.Owes ch → s'.callers i ≠ none

/-- The channel holds a result, or a caller of the target is on its way to
publish one. -/
def State.Attended (s : State) (target : String) (ch : Channel) : Prop :=
  (∃ i pc, s.callers i = some ⟨target, pc⟩ ∧ pc.Owes ch) ∨ (s.published ch).isSome

/-- The channel whose sender the caller found gone before. -/
def Pc.last : Pc → Option Channel
  | .look last => last
  | .wait last _ _ => last
  | .claim last _ => last
  | .lock _ => none
  | .run _ => none
  | .remove _ => none

structure Inv (s : State) : Prop where
  entries : ∀ target ch, s.inflight target = some ch → s.Attended target ch
  waits : ∀ i target last own ch, s.callers i = some ⟨target, .wait last own ch⟩ →
    s.Attended target ch
  first : ∀ i c, s.callers i = some c → c.pc.last = none

section Steps

variable {mode : CacheMode} {s s' : State} {target : String} {ch : Channel}

@[simp] theorem move_callers_self (i : Nat) (pc : Pc) :
    (s.move i target pc).callers i = some ⟨target, pc⟩ := by
  simp [State.move]

theorem move_move (i : Nat) (pc pc' : Pc) :
    (s.move i target pc).move i target pc' = s.move i target pc' := by
  simp [State.move]

@[simp] theorem drop_callers_self (i : Nat) : (s.drop i).callers i = none := by
  simp [State.drop]

theorem move_frame (i : Nat) (pc : Pc) :
    ∀ j, j ≠ i → (s.move i target pc).callers j = s.callers j :=
  fun _ hij => by simp [State.move, hij]

theorem drop_frame (i : Nat) : ∀ j, j ≠ i → (s.drop i).callers j = s.callers j :=
  fun _ hij => by simp [State.drop, hij]

/-- A caller that owes a result still owes it after a step of another one. -/
theorem owes_frame {i j : Nat} {pc : Pc} (hi : s.callers i = some ⟨target, pc⟩) (ho : pc.Owes ch)
    (hframe : ∀ k, k ≠ j → s'.callers k = s.callers k)
    (hj : ∀ c, s.callers j = some c → ¬ c.pc.Owes ch) :
    ∃ pc', s'.callers i = some ⟨target, pc'⟩ ∧ pc'.Owes ch := by
  have hij : i ≠ j := by
    rintro rfl
    exact hj _ hi ho
  exact ⟨pc, by rw [hframe i hij, hi], ho⟩

/-- Of the steps of a caller that owes a result, only publishing ends the debt. -/
theorem owes_step (h : Step mode s s') (hk : KeepsOwners s s') {i : Nat} {pc : Pc}
    (hi : s.callers i = some ⟨target, pc⟩) (ho : pc.Owes ch) :
    (∃ pc', s'.callers i = some ⟨target, pc'⟩ ∧ pc'.Owes ch) ∨ (s'.published ch).isSome := by
  cases h with
  | arrive j _ _ _ hj => exact .inl (owes_frame hi ho (move_frame j _) (by simp [hj]))
  | lookFound j _ _ _ hj =>
    exact .inl (owes_frame hi ho (move_frame j _) (by simp [hj, Pc.Owes]))
  | lookAbsent j _ _ hj =>
    exact .inl (owes_frame hi ho (move_frame j _) (by simp [hj, Pc.Owes]))
  | waitPublished j _ _ _ _ _ hj =>
    exact .inl (owes_frame hi ho (drop_frame j) (by simp [hj, Pc.Owes]))
  | waitGone j _ _ _ _ hj =>
    exact .inl (owes_frame hi ho (move_frame j _) (by simp [hj, Pc.Owes]))
  | claimLost j _ _ _ _ hj =>
    exact .inl (owes_frame hi ho (move_frame j _) (by simp [hj, Pc.Owes]))
  | claimWon j _ _ _ hj =>
    exact .inl (owes_frame hi ho (move_frame j _) (by simp [hj, Pc.Owes]))
  | acquire j target' own hj =>
    by_cases hij : i = j
    · subst hij
      rw [hi] at hj
      cases hj
      obtain ho | ho := ho
      · cases ho
        exact .inl ⟨.run _, move_callers_self i _, .inr rfl⟩
      · cases ho
    · exact .inl ⟨pc, (move_frame j _ i hij).trans hi, ho⟩
  | publish j target' own result hj =>
    by_cases hij : i = j
    · subst hij
      rw [hi] at hj
      cases hj
      obtain ho | ho := ho
      · cases ho
      · cases ho
        exact .inr (by simp)
    · exact .inl ⟨pc, (move_frame j _ i hij).trans hi, ho⟩
  | finish j _ _ hj => exact .inl (owes_frame hi ho (drop_frame j) (by simp [hj, Pc.Owes]))
  | scheduleStart => exact .inl ⟨pc, hi, ho⟩
  | scheduleEnd => exact .inl ⟨pc, hi, ho⟩
  | cancel j c hj =>
    have hij : i ≠ j := by
      rintro rfl
      exact hk i _ ch hi ho (drop_callers_self i)
    exact .inl ⟨pc, (drop_frame j i hij).trans hi, ho⟩

theorem published_step (h : Step mode s s') (hp : (s.published ch).isSome) :
    (s'.published ch).isSome := by
  cases h with
  | publish j target' own result hj =>
    by_cases hc : ch = own
    · simp [hc]
    · simpa [hc, Function.update_of_ne] using hp
  | _ => exact hp

theorem attended_step (h : Step mode s s') (hk : KeepsOwners s s') (ha : s.Attended target ch) :
    s'.Attended target ch := by
  obtain ⟨i, pc, hi, ho⟩ | hp := ha
  · obtain ⟨pc', hi', ho'⟩ | hp := owes_step h hk hi ho
    · exact .inl ⟨i, pc', hi', ho'⟩
    · exact .inr hp
  · exact .inr (published_step h hp)

/-- Where an entry of the map comes from. -/
theorem inflight_step (h : Step mode s s') (he : s'.inflight target = some ch) :
    s.inflight target = some ch ∨ s'.Attended target ch := by
  cases h with
  | claimWon i target' last own hi hm =>
    by_cases ht : target = target'
    · subst ht
      simp only [Function.update_self] at he
      cases he
      exact .inr (.inl ⟨i, .lock _, move_callers_self i _, .inl rfl⟩)
    · simp only [Function.update_of_ne ht] at he
      exact .inl he
  | finish i target' own hi =>
    by_cases ht : target = target'
    · simp [ht] at he
    · simp only [Function.update_of_ne ht] at he
      exact .inl he
  | _ => exact .inl he

theorem move_cases {i j : Nat} {pc : Pc} {c : Caller}
    (h : (s.move j target pc).callers i = some c) : s.callers i = some c ∨ c = ⟨target, pc⟩ := by
  by_cases hij : i = j
  · subst hij
    rw [move_callers_self] at h
    exact .inr (Option.some.inj h).symm
  · exact .inl ((move_frame j pc i hij).symm.trans h)

theorem drop_cases {i j : Nat} {c : Caller} (h : (s.drop j).callers i = some c) :
    s.callers i = some c := by
  by_cases hij : i = j
  · simp [hij] at h
  · exact (drop_frame j i hij).symm.trans h

theorem State.Attended.not_gone (ha : s.Attended target ch) (hp : s.published ch = none) :
    s.SenderAlive ch := by
  obtain ⟨i, pc, hi, ho⟩ | h := ha
  · obtain rfl | rfl := ho
    · exact ⟨i, _, hi, rfl⟩
    · exact ⟨i, _, hi, rfl⟩
  · simp [hp] at h

/-- A caller that has just moved has found no sender gone, and a channel it
waits on is the one in the map. -/
def Pc.Fresh (s : State) (target : String) (pc : Pc) : Prop :=
  pc.last = none ∧ ∀ last own ch, pc = .wait last own ch → s.inflight target = some ch

theorem caller_step (hinv : Inv s) (h : Step mode s s') {i : Nat} {c : Caller}
    (hi : s'.callers i = some c) : s.callers i = some c ∨ c.pc.Fresh s c.target := by
  cases h with
  | arrive j _ _ t hj => exact (move_cases hi).imp_right (by rintro rfl; simp [Pc.Fresh, Pc.last])
  | lookFound j t last ch hj hm =>
    have hlast : last = none := hinv.first j _ hj
    refine (move_cases hi).imp_right ?_
    rintro rfl
    simp [Pc.Fresh, Pc.last, hlast, hm]
  | lookAbsent j t last hj =>
    have hlast : last = none := hinv.first j _ hj
    refine (move_cases hi).imp_right ?_
    rintro rfl
    simp [Pc.Fresh, Pc.last, hlast]
  | waitPublished j => exact .inl (drop_cases hi)
  | waitGone j t last own ch hj hr hg =>
    exact absurd ((hinv.waits j t last own ch hj).not_gone hr) hg
  | claimLost j t last own ch hj hm =>
    have hlast : last = none := hinv.first j _ hj
    refine (move_cases hi).imp_right ?_
    rintro rfl
    simp [Pc.Fresh, Pc.last, hlast, hm]
  | claimWon j => exact (move_cases hi).imp_right (by rintro rfl; simp [Pc.Fresh, Pc.last])
  | acquire j => exact (move_cases hi).imp_right (by rintro rfl; simp [Pc.Fresh, Pc.last])
  | publish j => exact (move_cases hi).imp_right (by rintro rfl; simp [Pc.Fresh, Pc.last])
  | finish j => exact .inl (drop_cases hi)
  | scheduleStart => exact .inl hi
  | scheduleEnd => exact .inl hi
  | cancel j => exact .inl (drop_cases hi)

theorem inv_initial : Inv initial where
  entries := by simp [initial]
  waits := by simp [initial]
  first := by simp [initial]

theorem inv_step (hinv : Inv s) (h : Step mode s s') (hk : KeepsOwners s s') : Inv s' where
  entries target ch he := by
    obtain he | ha := inflight_step h he
    · exact attended_step h hk (hinv.entries target ch he)
    · exact ha
  waits i target last own ch hi := by
    obtain hi | hfresh := caller_step hinv h hi
    · exact attended_step h hk (hinv.waits i target last own ch hi)
    · exact attended_step h hk (hinv.entries target ch (hfresh.2 last own ch rfl))
  first i c hi := by
    obtain hi | hfresh := caller_step hinv h hi
    · exact hinv.first i c hi
    · exact hfresh.1

end Steps

/-- In every run that drops no caller between inserting its channel and
publishing on it, every entry is owned and no caller spins. -/
theorem entries_owned {mode : CacheMode} {s : State}
    (h : Reachable (· = initial) (fun s s' => Step mode s s' ∧ KeepsOwners s s') s) :
    Owned s ∧ ¬ Spins s := by
  have hinv : Inv s := by
    refine invariant ?_ ?_ h
    · rintro _ rfl
      exact inv_initial
    · exact fun _ _ hinv hstep => inv_step hinv hstep.1 hstep.2
  constructor
  · intro target ch he
    obtain ⟨i, pc, hi, ho⟩ | hp := hinv.entries target ch he
    · exact .inl ⟨i, pc, hi, .inl ho⟩
    · exact .inr hp
  · rintro ⟨i, target, own, ch, hi, -, -⟩
    exact absurd (hinv.first i _ hi) (by simp [Pc.last])

def arrived : State := initial.move 0 "collateral" (.look none)

def claiming : State := { arrived.move 0 "collateral" (.claim none 0) with next := 1 }

/-- A caller has inserted its channel and waits for the refresh lock. -/
def inserted : State :=
  { claiming.move 0 "collateral" (.lock 0) with
    inflight := Function.update claiming.inflight "collateral" (some 0) }

theorem step_arrived : Step .lazy initial arrived := .arrive 0 none none "collateral" rfl rfl

theorem step_claiming : Step .lazy arrived claiming := .lookAbsent 0 "collateral" none rfl rfl

theorem step_inserted : Step .lazy claiming inserted := .claimWon 0 "collateral" none 0 rfl rfl

/-- A step that leaves its only caller in place drops none. -/
theorem keepsOwners_of_first {s s' : State} (h : ∀ i, i ≠ 0 → s.callers i = none)
    (h' : s'.callers 0 ≠ none) : KeepsOwners s s' := by
  intro i c ch hi _
  by_cases h0 : i = 0
  · exact h0 ▸ h'
  · simp [h i h0] at hi

theorem entries_owned_inserted : Owned inserted ∧ inserted.inflight "collateral" = some 0 := by
  have harrived : ∀ i, i ≠ 0 → arrived.callers i = none := move_frame 0 _
  have hclaiming : ∀ i, i ≠ 0 → claiming.callers i = none :=
    fun i hi => (move_frame 0 _ i hi).trans (harrived i hi)
  have hreach : Reachable (· = initial) (fun s s' => Step .lazy s s' ∧ KeepsOwners s s') inserted :=
    reachable_step (reachable_step (reachable_step (reachable_start rfl)
      ⟨step_arrived, keepsOwners_of_first (by simp [initial]) (by simp [arrived])⟩)
      ⟨step_claiming, keepsOwners_of_first harrived (by simp [claiming])⟩)
      ⟨step_inserted, keepsOwners_of_first hclaiming (by simp [inserted])⟩
  exact ⟨(entries_owned hreach).1, rfl⟩

/-- The caller was dropped there, and another one has come. -/
def orphaned (pc : Pc) : State := (inserted.drop 0).move 1 "collateral" pc

theorem orphaned_callers {pc : Pc} {i : Nat} {c : Caller} (h : (orphaned pc).callers i = some c) :
    c = ⟨"collateral", pc⟩ := by
  obtain h | h := move_cases h
  · have hi : i ≠ 0 := by
      rintro rfl
      simp at h
    have hnone : inserted.callers i = none :=
      (move_frame 0 _ i hi).trans ((move_frame 0 _ i hi).trans (move_frame 0 _ i hi))
    simp [drop_cases h] at hnone
  · exact h

theorem orphaned_gone (last : Option Channel) :
    ¬ (orphaned (.wait last none 0)).SenderAlive 0 := by
  rintro ⟨i, c, hi, hs⟩
  rw [orphaned_callers hi] at hs
  cases hs

theorem step_orphaned_wait (last : Option Channel) :
    Step .lazy (orphaned (.look last)) (orphaned (.wait last none 0)) := by
  have hstep : Step .lazy (orphaned (.look last)) _ :=
    .lookFound 1 "collateral" last 0 (move_callers_self 1 _) rfl
  rwa [orphaned, move_move] at hstep

theorem step_orphaned_look (last : Option Channel) :
    Step .lazy (orphaned (.wait last none 0)) (orphaned (.look (some 0))) := by
  have hstep : Step .lazy (orphaned (.wait last none 0)) _ :=
    .waitGone 1 "collateral" last none 0 (move_callers_self 1 _) rfl (orphaned_gone last)
  rwa [orphaned, move_move] at hstep

/-- The caller is dropped while it waits for the refresh lock: its entry stays,
and a newcomer keeps finding it. -/
theorem dropped_owner_spins :
    ∃ s, Reachable (· = initial) (Step .lazy) s ∧ ¬ Owned s ∧ Spins s := by
  have hinserted : Reachable (· = initial) (Step .lazy) inserted :=
    reachable_step (reachable_step (reachable_step (reachable_start rfl) step_arrived)
      step_claiming) step_inserted
  have hdropped : Reachable (· = initial) (Step .lazy) (inserted.drop 0) :=
    reachable_step hinserted (.cancel 0 ⟨"collateral", .lock 0⟩ rfl)
  have hcome : Reachable (· = initial) (Step .lazy) (orphaned (.look none)) :=
    reachable_step hdropped (.arrive 1 none none "collateral" rfl rfl)
  have hspins : Reachable (· = initial) (Step .lazy) (orphaned (.wait (some 0) none 0)) :=
    reachable_step (reachable_step (reachable_step hcome (step_orphaned_wait none))
      (step_orphaned_look none)) (step_orphaned_wait (some 0))
  refine ⟨_, hspins, fun howned => ?_,
    1, "collateral", none, 0, move_callers_self 1 _, rfl, orphaned_gone (some 0)⟩
  obtain ⟨i, pc, hi, ho⟩ | hp := howned "collateral" 0 rfl
  · cases orphaned_callers hi
    simp [Pc.Owes] at ho
  · cases hp

end Pccs.Refresh
