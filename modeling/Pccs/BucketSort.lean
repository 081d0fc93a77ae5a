import Pccs.Checked
import Pccs.Insertion
import Pccs.Selection
import Pccs.TcbEncoding

/-!
# The sort of the levels

V8's short-array sort works in place, by index. No index leaves the array, and
what it leaves behind is the list computation of the selection. Levels that do
not compare count as equal, so only neighbours can be compared afterwards.
-/
namespace Pccs.Selection

open Checked Insertion

section InPlace

/-- `while run < len && ...`: `strict` asks for an element below the one before
it, its absence for one that is not. -/
def extendRun (strict : Bool) (buckets : List Bucket) (run : Nat) : Option Nat :=
  if run < buckets.length then
    match buckets[run]?, if run = 0 then none else buckets[run - 1]? with
    | some b, some prev =>
      if decide (bucketCmp b prev < 0) = strict then extendRun strict buckets (run + 1)
      else some run
    | _, _ => none
  else some run
termination_by buckets.length - run

/-- `while left < right`, for the element at `start`. -/
def binarySearch (buckets : List Bucket) (start left right : Nat) : Option Nat :=
  if left < right then
    let mid := left + (right - left) / 2
    match buckets[start]?, buckets[mid]? with
    | some pivot, some m =>
      if bucketCmp pivot m < 0 then binarySearch buckets start left mid
      else binarySearch buckets start (mid + 1) right
    | _, _ => none
  else some left
termination_by right - left

/-- `buckets[left..=start].rotate_right(1)`. -/
def rotateRight (buckets : List Bucket) (left start : Nat) : Option (List Bucket) := do
  let part ← slice buckets left (start + 1)
  let last ← part.getLast?
  return buckets.take left ++ (last :: part.dropLast) ++ buckets.drop (start + 1)

/-- `for start in run..len`. -/
def insertFrom (len : Nat) (buckets : List Bucket) (start : Nat) : Option (List Bucket) :=
  if start < len then
    match binarySearch buckets start 0 start with
    | none => none
    | some left =>
      match rotateRight buckets left start with
      | none => none
      | some buckets => insertFrom len buckets (start + 1)
  else some buckets
termination_by len - start

/-- `v8_sort_desc`; `none` is an index out of range. -/
def v8SortInPlace (buckets : List Bucket) : Option (List Bucket) :=
  if buckets.length < 2 then some buckets
  else do
    let b ← buckets[1]?
    let a ← buckets[0]?
    if bucketCmp b a < 0 then do
      let run ← extendRun true buckets 2
      let front ← slice buckets 0 run
      insertFrom buckets.length (front.reverse ++ buckets.drop run) run
    else do
      let run ← extendRun false buckets 1
      insertFrom buckets.length buckets run

theorem extendRun_eq (strict : Bool) (pre : List Bucket) (prev : Bucket) (rest : List Bucket) :
    extendRun strict (pre ++ prev :: rest) (pre.length + 1) =
      some (pre.length + 1 + (splitRun strict prev rest).1.length) := by
  induction rest generalizing pre prev with
  | nil =>
    rw [extendRun, if_neg (by simp)]
    rfl
  | cons b rest ih =>
    have hb : (pre ++ prev :: b :: rest)[pre.length + 1]? = some b := by
      rw [List.getElem?_append_right (by omega)]
      simp
    have hprev : (pre ++ prev :: b :: rest)[pre.length]? = some prev := by simp
    rw [extendRun, if_pos (by simp)]
    simp only [hb, Nat.add_sub_cancel, hprev, if_neg (Nat.succ_ne_zero _)]
    unfold splitRun
    split
    · have hnext := ih (pre ++ [prev]) b
      rw [List.append_assoc, List.singleton_append, List.length_append, List.length_singleton] at hnext
      rw [hnext]
      simp only [List.length_cons]
      congr 1
      omega
    · rfl

theorem binarySearch_eq {front tail : List Bucket} {pivot : Bucket} {fuel left right : Nat}
    (hright : right ≤ front.length) (hfuel : right ≤ left + fuel) :
    binarySearch (front ++ pivot :: tail) front.length left right =
      some (insertionPoint pivot front fuel left right) := by
  induction fuel generalizing left right with
  | zero =>
    rw [binarySearch, if_neg (by omega)]
    rfl
  | succ fuel ih =>
    rw [binarySearch, insertionPoint]
    split
    · rename_i hlt
      have hmid : left + (right - left) / 2 < front.length := by omega
      have hpivot : (front ++ pivot :: tail)[front.length]? = some pivot := by simp
      have hget : (front ++ pivot :: tail)[left + (right - left) / 2]? =
          some front[left + (right - left) / 2] := by
        rw [List.getElem?_append_left hmid, List.getElem?_eq_getElem hmid]
      simp only [hpivot, hget, List.getElem?_eq_getElem hmid]
      split
      · exact ih (by omega) (by omega)
      · exact ih (by omega) (by omega)
    · rfl

theorem rotateRight_eq {front tail : List Bucket} {pivot : Bucket} {k : Nat}
    (hk : k ≤ front.length) : rotateRight (front ++ pivot :: tail) k front.length =
      some (front.insertIdx k pivot ++ tail) := by
  have hslice : slice (front ++ pivot :: tail) k (front.length + 1) =
      some (front.drop k ++ [pivot]) := by
    rw [slice, if_pos ⟨by omega, by simp⟩]
    congr 1
    rw [List.take_append, List.take_of_length_le (by omega), Nat.add_sub_cancel_left,
      List.take_succ_cons, List.take_zero, List.drop_append_of_le_length hk]
  have hdrop : (front ++ pivot :: tail).drop (front.length + 1) = tail := by
    rw [List.drop_append, List.drop_of_length_le (by omega), Nat.add_sub_cancel_left]
    rfl
  rw [rotateRight, hslice, insertIdx_eq hk]
  simp only [Option.bind_eq_bind, Option.bind_some, List.getLast?_concat, List.dropLast_concat,
    Option.pure_def, List.take_append_of_le_length hk, hdrop]

theorem insertFrom_eq (front tail : List Bucket) :
    insertFrom (front.length + tail.length) (front ++ tail) front.length =
      some (tail.foldl binaryInsert front) := by
  induction tail generalizing front with
  | nil =>
    rw [insertFrom, if_neg (by simp)]
    simp
  | cons pivot tail ih =>
    have hsearch : binarySearch (front ++ pivot :: tail) front.length 0 front.length =
        some (insertionPoint pivot front front.length 0 front.length) :=
      binarySearch_eq (Nat.le_refl _) (by omega)
    have hle := insertionPoint_le pivot front front.length 0 front.length (Nat.zero_le _)
    have hlen : (binaryInsert front pivot).length = front.length + 1 := by
      rw [binaryInsert, List.length_insertIdx, if_pos hle]
    have hnext := ih (binaryInsert front pivot)
    rw [hlen] at hnext
    rw [insertFrom, if_pos (by simp)]
    simp only [hsearch, rotateRight_eq hle, List.length_cons, List.foldl_cons]
    rw [← hnext, Nat.add_right_comm, Nat.add_assoc]
    rfl

/-- The sort ends with every index in range, as the list computation. -/
theorem v8SortInPlace_eq (buckets : List Bucket) :
    v8SortInPlace buckets = some (v8SortDesc buckets) := by
  match buckets with
  | [] => rfl
  | [a] => rfl
  | a :: b :: rest =>
    rw [v8SortInPlace, if_neg (by simp), v8SortDesc]
    simp only [List.getElem?_cons_succ, List.getElem?_cons_zero, Option.bind_eq_bind,
      Option.bind_some]
    by_cases hstrict : bucketCmp b a < 0
    · have hrun := extendRun_eq true [a] b rest
      have happ := splitRun_append true b rest
      have hsplit : splitRun true a (b :: rest) =
          (b :: (splitRun true b rest).1, (splitRun true b rest).2) := by
        rw [splitRun, if_pos (by simpa using hstrict)]
      simp only [List.singleton_append, List.length_singleton] at hrun
      have hwhole : a :: b :: rest =
          (a :: b :: (splitRun true b rest).1) ++ (splitRun true b rest).2 := by
        rw [List.cons_append, List.cons_append, happ]
      generalize (splitRun true b rest).2 = tail at *
      generalize (splitRun true b rest).1 = run at *
      have hlen : 1 + 1 + run.length = (a :: b :: run).length := by
        simp only [List.length_cons]
        omega
      have hslice : slice (a :: b :: rest) 0 (1 + 1 + run.length) = some (a :: b :: run) := by
        rw [hwhole, slice, hlen, if_pos ⟨Nat.zero_le _, by simp⟩, List.take_left]
        rfl
      have hdrop : (a :: b :: rest).drop (1 + 1 + run.length) = tail := by
        rw [hwhole, hlen, List.drop_left]
      rw [if_pos hstrict, hrun]
      simp only [Option.bind_some, hslice, hdrop, hstrict, decide_true, hsplit, if_true]
      have hinsert := insertFrom_eq (a :: b :: run).reverse tail
      rw [List.length_reverse, ← List.length_append, ← hwhole] at hinsert
      rw [hlen]
      exact hinsert
    · have hrun := extendRun_eq false [] a (b :: rest)
      have happ := splitRun_append false a (b :: rest)
      simp only [List.nil_append, List.length_nil, Nat.zero_add] at hrun
      rw [if_neg hstrict, hrun]
      simp only [Option.bind_some, hstrict, decide_false]
      have hinsert := insertFrom_eq (a :: (splitRun false a (b :: rest)).1)
        (splitRun false a (b :: rest)).2
      rw [← List.length_append, List.cons_append, happ] at hinsert
      rw [Nat.add_comm 1]
      exact hinsert

end InPlace

section Order

/-- `y` is strictly above `x`. -/
def Above (y x : Bucket) : Prop := bucketCmp y x < 0

instance (y x : Bucket) : Decidable (Above y x) := inferInstanceAs (Decidable (_ < (0 : Int)))

/-- The TCB of one level is strictly above that of another. -/
theorem above_iff {x y : Bucket} : Above y x ↔
    ∃ xt yt, x.tcb = some xt ∧ y.tcb = some yt ∧ xt.compare yt = .ok (-1) := by
  unfold Above bucketCmp
  constructor
  · intro h
    split at h
    · rename_i yt xt hy hx
      refine ⟨xt, yt, hx, hy, ?_⟩
      revert h
      unfold Tcb.compare
      cases xt.lower yt <;> cases yt.lower xt <;> simp [Except.toOption]
    · cases h
  · rintro ⟨xt, yt, hx, hy, h⟩
    simp [hx, hy, h, Except.toOption]

theorem above_asymm : Asymmetric Above := by
  intro y x h h'
  obtain ⟨xt, yt, hx, hy, hlt⟩ := above_iff.mp h
  obtain ⟨yt', xt', hy', hx', hlt'⟩ := above_iff.mp h'
  cases hx.symm.trans hx'
  cases hy.symm.trans hy'
  obtain ⟨-, hle, -, -⟩ := compare_cases xt yt
  obtain ⟨-, hle', -, -⟩ := compare_cases yt xt
  exact (hle.mp hlt).2 (le_antisymm (hle.mp hlt).1 (hle'.mp hlt').1)

/-- All levels are known and compare with each other. -/
def Comparable (l : List Bucket) : Prop :=
  ∀ x ∈ l, ∀ y ∈ l, ∃ xt yt n, x.tcb = some xt ∧ y.tcb = some yt ∧ xt.compare yt = .ok n

/-- Between comparable levels, not above is at or below. -/
theorem not_above_iff {l : List Bucket} (h : Comparable l) {x y : Bucket} (hx : x ∈ l)
    (hy : y ∈ l) : ¬ Above y x ↔ ∃ xt yt, x.tcb = some xt ∧ y.tcb = some yt ∧ Tcb.Le yt xt := by
  obtain ⟨xt, yt, n, hxt, hyt, hn⟩ := h x hx y hy
  have hcmp := compare_cases xt yt
  rw [above_iff]
  constructor
  · intro hno
    refine ⟨xt, yt, hxt, hyt, ?_⟩
    by_contra hle
    have hle' : Tcb.Le xt yt := by
      by_contra hle'
      have herr := hcmp.2.2.2.mpr ⟨hle', hle⟩
      rw [hn] at herr
      cases herr
    have hne : xt.components ≠ yt.components := fun heq => hle (le_of_eq heq.symm)
    exact hno ⟨xt, yt, hxt, hyt, hcmp.2.1.mpr ⟨hle', hne⟩⟩
  · rintro ⟨xt', yt', hxt', hyt', hle⟩ ⟨xt'', yt'', hxt'', hyt'', hlt⟩
    cases hxt'.symm.trans hxt''
    cases hyt'.symm.trans hyt''
    have hlt := (compare_cases xt' yt').2.1.mp hlt
    exact hlt.2 (le_antisymm hlt.1 hle)

theorem ranked_of_comparable {l : List Bucket} (h : Comparable l) : Ranked Above l := by
  intro x hx y hy z hz hyx hzy
  obtain ⟨xt, yt, hxt, hyt, hle⟩ := (not_above_iff h hx hy).mp hyx
  obtain ⟨yt', zt, hyt', hzt, hle'⟩ := (not_above_iff h hy hz).mp hzy
  cases hyt.symm.trans hyt'
  refine (not_above_iff h hx hz).mpr ⟨xt, zt, hxt, hzt, fun i => ?_⟩
  exact UInt32.le_trans (hle' i) (hle i)

/-- The search stops between an element it found not below and one it found
below; both ends of the array count as found. -/
theorem insertionPoint_slot {pivot : Bucket} {front : List Bucket} {fuel left right : Nat}
    (hle : left ≤ right) (hright : right ≤ front.length) (hfuel : right ≤ left + fuel)
    (hbefore : ∀ x ∈ (front.take left).getLast?, ¬ Above pivot x)
    (hafter : ∀ x ∈ (front.drop right).head?, Above pivot x) :
    Slot Above pivot front (insertionPoint pivot front fuel left right) := by
  induction fuel generalizing left right with
  | zero =>
    obtain rfl : left = right := by omega
    exact ⟨hright, hbefore, hafter⟩
  | succ fuel ih =>
    rw [insertionPoint]
    split
    · rename_i hlt
      have hmid : left + (right - left) / 2 < front.length := by omega
      simp only [List.getElem?_eq_getElem hmid]
      split
      · rename_i hbelow
        refine ih (by omega) (by omega) (by omega) hbefore fun x hx => ?_
        rw [List.drop_eq_getElem_cons hmid, List.head?_cons] at hx
        cases hx
        exact hbelow
      · rename_i hnot
        refine ih (by omega) (by omega) (by omega) (fun x hx => ?_) hafter
        rw [List.take_add_one, List.getElem?_eq_getElem hmid, Option.toList_some,
          List.getLast?_concat] at hx
        cases hx
        exact hnot
    · obtain rfl : left = right := by omega
      exact ⟨hright, hbefore, hafter⟩

theorem binaryInsert_slot (front : List Bucket) (pivot : Bucket) :
    Slot Above pivot front (insertionPoint pivot front front.length 0 front.length) :=
  insertionPoint_slot (Nat.zero_le _) (Nat.le_refl _) (by omega) (by simp) (by simp)

theorem splitRun_chain (strict : Bool) (prev : Bucket) (l : List Bucket) :
    (prev :: (splitRun strict prev l).1).IsChain fun x y => decide (bucketCmp y x < 0) = strict := by
  induction l generalizing prev with
  | nil => simp [splitRun]
  | cons b rest ih =>
    rw [splitRun]
    split
    · rename_i hb
      exact List.isChain_cons.mpr ⟨fun y hy => by cases hy; exact hb, ih b⟩
    · simp

/-- The run the insertions start from, made descending. -/
def initialRun (a b : Bucket) (rest : List Bucket) : List Bucket :=
  let strict := decide (bucketCmp b a < 0)
  let run := a :: (splitRun strict a (b :: rest)).1
  if strict then run.reverse else run

theorem v8SortDesc_cons (a b : Bucket) (rest : List Bucket) : v8SortDesc (a :: b :: rest) =
    (splitRun (decide (bucketCmp b a < 0)) a (b :: rest)).2.foldl binaryInsert
      (initialRun a b rest) := rfl

theorem rises_of_strict {a b : Bucket} {rest : List Bucket} :
    (a :: (splitRun true a (b :: rest)).1).IsChain fun x y => Above y x :=
  (splitRun_chain true a (b :: rest)).imp fun _ _ hyx => of_decide_eq_true hyx

theorem falls_of_not {a : Bucket} {rest : List Bucket} :
    Falls Above (a :: (splitRun false a rest).1) :=
  (splitRun_chain false a rest).imp fun _ _ hyx => of_decide_eq_false hyx

theorem falls_initialRun (a b : Bucket) (rest : List Bucket) :
    Falls Above (initialRun a b rest) := by
  unfold initialRun
  by_cases h : bucketCmp b a < 0
  · simp only [h, decide_true, if_true]
    exact falls_reverse above_asymm rises_of_strict
  · simp only [h, decide_false]
    exact falls_of_not

theorem falls_foldl {tail front : List Bucket} (h : Falls Above front) :
    Falls Above (tail.foldl binaryInsert front) := by
  induction tail generalizing front with
  | nil => exact h
  | cons pivot tail ih => exact ih (falls_insertIdx above_asymm h (binaryInsert_slot front pivot))

/-- Whatever the levels, no level of the result is above the one before it. -/
theorem falls_v8SortDesc (l : List Bucket) : Falls Above (v8SortDesc l) := by
  match l with
  | [] => exact .nil
  | [a] => exact .singleton a
  | a :: b :: rest =>
    rw [v8SortDesc_cons]
    exact falls_foldl (falls_initialRun a b rest)

section Stable

variable {q : Bucket → Bool}

theorem filter_initialRun {a b : Bucket} {rest : List Bucket}
    (hrank : Ranked Above (a :: b :: rest)) (hq : OneRank Above q (a :: b :: rest)) :
    (initialRun a b rest).filter q =
      (a :: (splitRun (decide (bucketCmp b a < 0)) a (b :: rest)).1).filter q := by
  unfold initialRun
  by_cases h : bucketCmp b a < 0
  · have happ := splitRun_append true a (b :: rest)
    have hsub : ∀ x ∈ a :: (splitRun true a (b :: rest)).1, x ∈ a :: b :: rest := by
      intro x hx
      rw [← happ]
      simp only [List.mem_cons, List.mem_append] at hx ⊢
      tauto
    simp only [h, decide_true, if_true]
    exact filter_reverse (pairwise_of_rises above_asymm (hrank.mono hsub) rises_of_strict)
      fun x hx y hy => hq x (hsub x hx) y (hsub y hy)
  · simp only [h, decide_false]
    rfl

theorem filter_foldl {tail front : List Bucket} (hrank : Ranked Above (front ++ tail))
    (hq : OneRank Above q (front ++ tail)) (hfalls : Falls Above front) :
    (tail.foldl binaryInsert front).filter q = (front ++ tail).filter q := by
  induction tail generalizing front with
  | nil => simp
  | cons pivot tail ih =>
    have hsub : ∀ x ∈ pivot :: front, x ∈ front ++ pivot :: tail := by
      intro x hx
      simp only [List.mem_cons, List.mem_append] at hx ⊢
      tauto
    have hslot := binaryInsert_slot front pivot
    have hsub' : ∀ x ∈ binaryInsert front pivot ++ tail, x ∈ front ++ pivot :: tail := by
      intro x hx
      have hperm := (binaryInsert_perm front pivot).append_right tail
      have hx' := hperm.mem_iff.mp hx
      simp only [List.cons_append, List.mem_cons, List.mem_append] at hx' ⊢
      tauto
    have hrank' := hrank.mono hsub
    have hsorted := pairwise_of_falls
      (hrank'.mono fun x hx => List.mem_cons_of_mem pivot hx) hfalls
    have hinsert : (binaryInsert front pivot).filter q = front.filter q ++ [pivot].filter q :=
      filter_insertIdx hslot hrank' hsorted fun x hx y hy => hq x (hsub x hx) y (hsub y hy)
    rw [List.foldl_cons, ih (hrank.mono hsub')
      (fun x hx y hy => hq x (hsub' x hx) y (hsub' y hy))
      (falls_insertIdx above_asymm hfalls hslot), List.filter_append, hinsert,
      List.append_assoc, ← List.filter_append, List.singleton_append, List.filter_append]

/-- Ranked levels keep the order within a rank. -/
theorem filter_v8SortDesc {l : List Bucket} (hrank : Ranked Above l) (hq : OneRank Above q l) :
    (v8SortDesc l).filter q = l.filter q := by
  match l with
  | [] => rfl
  | [a] => rfl
  | a :: b :: rest =>
    have happ := splitRun_append (decide (bucketCmp b a < 0)) a (b :: rest)
    have hperm : (initialRun a b rest ++ (splitRun (decide (bucketCmp b a < 0)) a (b :: rest)).2).Perm
        (a :: b :: rest) := by
      have hrun : (initialRun a b rest).Perm
          (a :: (splitRun (decide (bucketCmp b a < 0)) a (b :: rest)).1) := by
        unfold initialRun
        simp only []
        split
        · exact List.reverse_perm _
        · exact List.Perm.refl _
      refine (hrun.append_right _).trans ?_
      rw [List.cons_append, happ]
    have hsub := fun x => (hperm.mem_iff (a := x)).mp
    rw [v8SortDesc_cons, filter_foldl (hrank.mono hsub)
      (fun x hx y hy => hq x (hsub x hx) y (hsub y hy)) (falls_initialRun a b rest),
      List.filter_append, filter_initialRun hrank hq, ← List.filter_append, List.cons_append, happ]

end Stable

/-- The TCB of a level has these components. -/
def hasComponents (t : Tcb) (x : Bucket) : Bool :=
  match x.tcb with
  | some xt => decide (xt.components = t.components)
  | none => false

theorem oneRank_components (t : Tcb) (l : List Bucket) : OneRank Above (hasComponents t) l := by
  intro x _ y _ hx hy h
  obtain ⟨yt, xt, hyt, hxt, hlt⟩ := above_iff.mp h
  simp only [hasComponents, hxt, hyt, decide_eq_true_eq] at hx hy
  exact ((compare_cases yt xt).2.1.mp hlt).2 (hy.trans hx.symm)

/-- The sort of the levels stays within the array and permutes it; a level is
never strictly above the one before it. Comparable levels come out in
descending order, those of one TCB in their input order. -/
theorem v8Sort_descends (l : List Bucket) :
    ∃ out, v8SortInPlace l = some out ∧ out.Perm l ∧
      (out.IsChain fun x y => ∀ xt yt, x.tcb = some xt → y.tcb = some yt →
        xt.compare yt ≠ .ok (-1)) ∧
      (Comparable l →
        (out.Pairwise fun x y => ∃ xt yt, x.tcb = some xt ∧ y.tcb = some yt ∧ Tcb.Le yt xt) ∧
        ∀ t, out.filter (hasComponents t) = l.filter (hasComponents t)) := by
  have hperm := v8SortDesc_perm l
  have hfalls := falls_v8SortDesc l
  refine ⟨v8SortDesc l, v8SortInPlace_eq l, hperm, ?_, fun hcomp => ⟨?_, fun t => ?_⟩⟩
  · exact hfalls.imp fun x y hyx xt yt hxt hyt hlt => hyx (above_iff.mpr ⟨xt, yt, hxt, hyt, hlt⟩)
  · have hrank := (ranked_of_comparable hcomp).mono fun x hx => hperm.mem_iff.mp hx
    refine (pairwise_of_falls hrank hfalls).imp_of_mem fun hx hy hyx => ?_
    exact (not_above_iff hcomp (hperm.mem_iff.mp hx) (hperm.mem_iff.mp hy)).mp hyx
  · exact filter_v8SortDesc (ranked_of_comparable hcomp) (oneRank_components t l)

/-- A level of no security at all. -/
def lowestTcb : Tcb := ⟨"00000000000000000000000000000000", 0, Vector.replicate 17 0⟩

theorem v8Sort_descends_twins :
    ∃ out, v8SortInPlace [⟨some lowestTcb, []⟩, ⟨some lowestTcb, []⟩] = some out ∧
      out.filter (hasComponents lowestTcb) = [⟨some lowestTcb, []⟩, ⟨some lowestTcb, []⟩] := by
  obtain ⟨out, hout, -, -, hcomp⟩ := v8Sort_descends [⟨some lowestTcb, []⟩, ⟨some lowestTcb, []⟩]
  refine ⟨out, hout, (hcomp fun x hx y hy => ?_).2 lowestTcb⟩
  obtain rfl : x = ⟨some lowestTcb, []⟩ := by simpa using hx
  obtain rfl : y = ⟨some lowestTcb, []⟩ := by simpa using hy
  exact ⟨lowestTcb, lowestTcb, 0, rfl, rfl, rfl⟩

end Order

end Pccs.Selection
