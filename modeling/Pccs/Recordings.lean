import Pccs.Scrape

/-!
# What a scrape reports

A registry is followed through any sequence of recordings. Each of its counters
holds how often its own recording was made, each histogram the durations that
were observed for it, and the scrape shows just that.
-/
namespace Pccs.Metrics

open Cells Exposition Text

section Folds

variable {σ ε : Type}

/-- A counter that some events increase. -/
theorem foldl_counted {f : σ → ε → σ} {v : σ → Counter} {p : ε → Bool}
    (h : ∀ s e, v (f s e) = if p e then v s + 1 else v s) (s : σ) (es : List ε) :
    v (es.foldl f s) = v s + (es.countP p : Counter) := by
  induction es generalizing s with
  | nil => simp
  | cons e es ih =>
    rw [List.foldl_cons, ih, h, List.countP_cons]
    split
    · rw [Nat.cast_add, Nat.cast_one, add_assoc, add_comm (1 : Counter)]
    · rw [add_zero]

/-- A histogram that some events add a duration to. -/
theorem foldl_observed {f : σ → ε → σ} {v : σ → Histogram} {pick : ε → Option Nat}
    (h : ∀ s e, v (f s e) = (pick e).elim (v s) (v s).observe) (s : σ) (es : List ε) :
    v (es.foldl f s) = (es.filterMap pick).foldl Histogram.observe (v s) := by
  induction es generalizing s with
  | nil => rfl
  | cons e es ih =>
    rw [List.foldl_cons, ih, h]
    cases hpick : pick e with
    | none => simp [hpick]
    | some nanos => simp [hpick]

/-- A cell that some events overwrite: what the last of them wrote. -/
theorem foldl_latest {α γ : Type} {f : σ → ε → σ} {v : σ → γ} {pick : ε → Option α} {g : α → γ}
    (h : ∀ s e, v (f s e) = (pick e).elim (v s) g) (s : σ) (es : List ε) :
    v (es.foldl f s) = (es.filterMap pick).getLast?.elim (v s) g := by
  induction es generalizing s with
  | nil => rfl
  | cons e es ih =>
    rw [List.foldl_cons, ih, h, List.filterMap_cons]
    cases pick e with
    | none => rfl
    | some a =>
      rw [List.getLast?_cons]
      cases (es.filterMap pick).getLast? with
      | none => rfl
      | some b => rfl

theorem countP_or {p q : ε → Bool} (h : ∀ e, p e = true → q e = false) (es : List ε) :
    es.countP (fun e => p e || q e) = es.countP p + es.countP q := by
  induction es with
  | nil => rfl
  | cons e es ih =>
    simp only [List.countP_cons, ih]
    cases hp : p e with
    | false => simp; omega
    | true => simp [h e hp]; omega

end Folds

section Observed

/-- A histogram of these durations. -/
def observed (durations : List Nat) : Histogram := durations.foldl Histogram.observe .default

/-- The bucket is for durations up to its bound; the last one is for all. -/
def Fits (bucket : Bucket) (nanos : Nat) : Bool :=
  (bucketNanos[bucket.index.val]?).all fun bound => decide (nanos ≤ bound)

theorem observed_count (durations : List Nat) :
    (observed durations).count = (durations.length : Counter) := by
  have hcount := @foldl_counted _ _ Histogram.observe Histogram.count (fun _ => true)
    (fun _ _ => rfl) .default durations
  rw [List.countP_true] at hcount
  rw [observed, hcount]
  exact zero_add _

theorem observed_bucket (durations : List Nat) (bucket : Bucket) :
    cell (observed durations).buckets bucket =
      (durations.countP fun nanos => decide (bucketOf nanos = bucket) : Counter) := by
  have hbucket := @foldl_counted _ _ Histogram.observe (fun h => cell h.buckets bucket)
    (fun nanos => decide (bucketOf nanos = bucket))
    (fun h nanos => by simp only [Histogram.observe, cell_modify, decide_eq_true_eq])
    .default durations
  simp only [Histogram.default, cell_fill, zero_add] at hbucket
  exact hbucket

theorem observed_sum (durations : List Nat) : (observed durations).sumNanos =
    ((durations.map fun nanos => min nanos (2 ^ 64 - 1)).sum : Counter) := by
  have hsum : ∀ h : Histogram, (durations.foldl Histogram.observe h).sumNanos =
      h.sumNanos + ((durations.map fun nanos => min nanos (2 ^ 64 - 1)).sum : Counter) := by
    induction durations with
    | nil => simp
    | cons nanos durations ih =>
      intro h
      rw [List.foldl_cons, ih, List.map_cons, List.sum_cons, Nat.cast_add, ← add_assoc]
      rfl
  exact (hsum .default).trans (zero_add _)

/-- On a sorted list: what comes before a place is below if and only if … -/
theorem length_takeWhile_le {bounds : List Nat} (h : bounds.Pairwise (· < ·)) (nanos i : Nat) :
    (bounds.takeWhile fun bound => bound < nanos).length ≤ i ↔
      (bounds[i]?).all (fun bound => decide (nanos ≤ bound)) = true := by
  induction bounds generalizing i with
  | nil => simp
  | cons bound bounds ih =>
    obtain ⟨hbound, hbounds⟩ := List.pairwise_cons.mp h
    by_cases hlt : bound < nanos
    · cases i with
      | zero => simp [hlt]
      | succ i => simpa [List.takeWhile_cons, hlt] using ih hbounds i
    · have hall : ((bound :: bounds)[i]?).all (fun bound => decide (nanos ≤ bound)) = true := by
        cases hget : (bound :: bounds)[i]? with
        | none => rfl
        | some b =>
          rw [Option.all_some, decide_eq_true_eq]
          rcases List.mem_cons.mp (List.mem_of_getElem? hget) with rfl | hmem
          · omega
          · have := hbound b hmem
            omega
      simp [hlt, hall]

theorem fits_iff (bucket : Bucket) (nanos : Nat) :
    Fits bucket nanos = true ↔ index (bucketOf nanos) ≤ index bucket := by
  have hsorted : bucketNanos.Pairwise (· < ·) := by decide
  exact (length_takeWhile_le hsorted nanos bucket.index.val).symm

theorem saturatingAdd_cast {a b : Nat} (h : a + b < 2 ^ 64) :
    saturatingAdd (a : Counter) (b : Counter) = ((a + b : Nat) : Counter) := by
  have ha : (a : Counter).toNat = a := by
    rw [BitVec.natCast_eq_ofNat, BitVec.toNat_ofNat, Nat.mod_eq_of_lt (by omega)]
  have hb : (b : Counter).toNat = b := by
    rw [BitVec.natCast_eq_ofNat, BitVec.toNat_ofNat, Nat.mod_eq_of_lt (by omega)]
  rw [saturatingAdd, ha, hb, if_pos h, Nat.cast_add]

/-- The first buckets add up to what fell into them. -/
theorem cumulated {durations : List Nat} (hlen : durations.length < 2 ^ 64)
    {buckets : List Bucket} (h : buckets.Nodup) :
    buckets.foldl (fun sum bucket => saturatingAdd sum (cell (observed durations).buckets bucket)) 0 =
      (durations.countP fun nanos => decide (bucketOf nanos ∈ buckets) : Counter) := by
  induction buckets using List.reverseRecOn with
  | nil => simp
  | append_singleton buckets bucket ih =>
    obtain ⟨hbuckets, -, hnew⟩ := List.nodup_append.mp h
    have hsplit : (durations.countP fun nanos => decide (bucketOf nanos ∈ buckets ++ [bucket])) =
        (durations.countP fun nanos => decide (bucketOf nanos ∈ buckets)) +
          durations.countP fun nanos => decide (bucketOf nanos = bucket) := by
      rw [← countP_or]
      · simp
      · intro nanos hmem
        rw [decide_eq_true_eq] at hmem
        rw [decide_eq_false_iff_not]
        intro heq
        exact hnew _ hmem _ List.mem_cons_self heq
    have hle := @List.countP_le_length _
      (fun nanos => decide (bucketOf nanos ∈ buckets ++ [bucket])) durations
    rw [List.foldl_append, ih hbuckets, List.foldl_cons, List.foldl_nil, observed_bucket,
      saturatingAdd_cast (by omega), hsplit]

theorem observed_total {durations : List Nat} (hlen : durations.length < 2 ^ 64) :
    (observed durations).total = (durations.length : Counter) := by
  rw [Histogram.total, cumulated hlen all_nodup]
  simp [mem_all]

/-- The series of a bucket, wherever in the list it is. -/
theorem bucketSeries_get (h : Histogram) (labels : List Label) {buckets : List Bucket}
    {bucket : Bucket} {k : Nat} (hk : buckets[k]? = some bucket) (cumulative : Counter) :
    ⟨"_bucket", labels ++ [("le", asStr bucket)], decimal ((buckets.take (k + 1)).foldl
      (fun sum bucket => saturatingAdd sum (cell h.buckets bucket)) cumulative)⟩ ∈
      bucketSeries h labels cumulative buckets := by
  induction buckets generalizing k cumulative with
  | nil => simp at hk
  | cons first buckets ih =>
    rw [bucketSeries]
    cases k with
    | zero =>
      obtain rfl : first = bucket := by simpa using hk
      exact List.mem_cons_self
    | succ k =>
      rw [List.take_succ_cons, List.foldl_cons]
      exact List.mem_cons_of_mem _ (ih (by simpa using hk) _)

theorem observed_count_ne {durations : List Nat} (hlen : durations.length < 2 ^ 64)
    (hne : durations ≠ []) : (observed durations).count ≠ 0 := by
  have hpos := List.length_pos_iff.mpr hne
  rw [observed_count, BitVec.natCast_eq_ofNat]
  intro h
  have htoNat := congrArg BitVec.toNat h
  rw [BitVec.toNat_ofNat, Nat.mod_eq_of_lt hlen] at htoNat
  simp only [BitVec.ofNat_eq_ofNat, BitVec.toNat_zero] at htoNat
  omega

/-- Each bucket is shown with the durations up to its bound. -/
theorem observed_series {floats : Floats} {durations : List Nat} (labels : List Label)
    (hlen : durations.length < 2 ^ 64) (hne : durations ≠ []) (bucket : Bucket) :
    ⟨"_bucket", labels ++ [("le", asStr bucket)], decimal (durations.countP (Fits bucket) : Nat)⟩ ∈
      (observed durations).series floats labels := by
  have hget := bucketSeries_get (observed durations) labels (get_all bucket) 0
  have hnodup : ((all : List Bucket).take (index bucket + 1)).Nodup :=
    all_nodup.sublist (List.take_sublist _ _)
  have htake : (durations.countP fun nanos =>
      decide (bucketOf nanos ∈ (all : List Bucket).take (index bucket + 1))) =
        durations.countP (Fits bucket) := by
    congr 1
    funext nanos
    rw [Bool.eq_iff_iff, decide_eq_true_eq, mem_take_all, fits_iff]
    omega
  rw [cumulated hlen hnodup, htake] at hget
  rw [Histogram.series, if_neg (observed_count_ne hlen hne)]
  exact List.mem_append_left _ hget

theorem observed_sum_count {floats : Floats} {durations : List Nat} (labels : List Label)
    (hlen : durations.length < 2 ^ 64) (hne : durations ≠ []) :
    ⟨"_sum", labels, floats.seconds
        ((durations.map fun nanos => min nanos (2 ^ 64 - 1)).sum : Nat)⟩ ∈
      (observed durations).series floats labels ∧
    ⟨"_count", labels, decimal (durations.length : Nat)⟩ ∈
      (observed durations).series floats labels := by
  rw [Histogram.series, if_neg (observed_count_ne hlen hne), observed_total hlen, observed_sum]
  exact ⟨List.mem_append_right _ List.mem_cons_self,
    List.mem_append_right _ (List.mem_cons_of_mem _ List.mem_cons_self)⟩

end Observed

section Events

variable {V : Type}

/-- One call of the registry. -/
inductive Event where
  | cacheLookup (kind : Kind) (result : CacheResult)
  | storeRead (kind : Kind) (nanos : Nat)
  | singleflightWait (kind : Kind) (nanos : Nat)
  | upstreamAttempt (upstream : Upstream) (status : UpstreamStatus) (nanos : Nat)
  | upstreamThrottled (upstream : Upstream)
  | permitWait (nanos : Nat)
  | inflightAdd
  | inflightSub
  | refreshRun (success : Bool) (nanos : Nat) (now : Counter)
  | refreshItem (kind : Kind) (success : Bool)
  | httpRequest (route : String) (status : Nat) (nanos : Nat)

def record (floats : Floats) (m : Metrics) : Event → Metrics
  | .cacheLookup kind result => m.cacheLookup kind result
  | .storeRead kind nanos => m.storeRead kind nanos
  | .singleflightWait kind nanos => m.singleflightWait kind nanos
  | .upstreamAttempt upstream status nanos => m.upstreamAttempt upstream status nanos
  | .upstreamThrottled upstream => m.upstreamThrottled upstream
  | .permitWait nanos => m.permitWait nanos
  | .inflightAdd => m.inflightAdd
  | .inflightSub => m.inflightSub
  | .refreshRun success nanos now => m.refreshRun floats success nanos now
  | .refreshItem kind success => m.refreshItem kind success
  | .httpRequest route status nanos => m.httpRequest route status nanos

namespace Event

/-- The cell of each table that an event counts in. -/
def lookup? : Event → Option (Kind × CacheResult)
  | .cacheLookup kind result => some (kind, result)
  | _ => none

def attempt? : Event → Option (Upstream × UpstreamStatus)
  | .upstreamAttempt upstream status _ => some (upstream, status)
  | _ => none

def throttled? : Event → Option Upstream
  | .upstreamThrottled upstream => some upstream
  | _ => none

def run? : Event → Option Bool
  | .refreshRun success _ _ => some success
  | _ => none

def item? : Event → Option (Kind × Bool)
  | .refreshItem kind success => some (kind, success)
  | _ => none

def http? : Event → Option (Route × StatusClass)
  | .httpRequest route status _ => some (routeIndex route, statusClass status)
  | _ => none

/-- The duration that an event adds to a histogram. -/
def stored? (kind : Kind) : Event → Option Nat
  | .storeRead k nanos => if k = kind then some nanos else none
  | _ => none

def waited? (kind : Kind) : Event → Option Nat
  | .singleflightWait k nanos => if k = kind then some nanos else none
  | _ => none

def tried? (upstream : Upstream) : Event → Option Nat
  | .upstreamAttempt u _ nanos => if u = upstream then some nanos else none
  | _ => none

def permitted? : Event → Option Nat
  | .permitWait nanos => some nanos
  | _ => none

def handled? (route : Route) : Event → Option Nat
  | .httpRequest r _ nanos => if routeIndex r = route then some nanos else none
  | _ => none

/-- What a refresh leaves: its duration, and its time if it was a success. -/
def finished? : Event → Option Nat
  | .refreshRun _ nanos _ => some nanos
  | _ => none

def succeeded? : Event → Option Counter
  | .refreshRun success _ now => if success then some now else none
  | _ => none

/-- The gauge after an event. It does not fall below zero. -/
def gauge : Event → Nat → Nat
  | .inflightAdd, n => n + 1
  | .inflightSub, n => n - 1
  | _, n => n

end Event

/-- The attempts that are under way after the events. -/
def inflightOf (events : List Event) : Nat := events.foldl (fun n e => e.gauge n) 0

/-- How many events are counted in a cell. -/
def countOf {ι : Type} [DecidableEq ι] (at? : Event → Option ι) (events : List Event) (i : ι) :
    Nat := events.countP fun e => decide (at? e = some i)

variable {floats : Floats} {number : List Char → Option V} {ι : Type} [Indexed ι] [DecidableEq ι]

/-- The registry after the recordings. -/
def recorded (floats : Floats) (start : Counter) (events : List Event) : Metrics :=
  events.foldl (record floats) (new start)

theorem table_counted (v : Metrics → Table ι Counter) (at? : Event → Option ι)
    (h : ∀ m e, v (record floats m e) = (at? e).elim (v m) fun i => modify (v m) i (· + 1))
    {start : Counter} (hnew : v (new start) = fill ι 0) (events : List Event) (i : ι) :
    cell (v (recorded floats start events)) i = (countOf at? events i : Counter) := by
  have hstep : ∀ m e, cell (v (record floats m e)) i =
      if decide (at? e = some i) then cell (v m) i + 1 else cell (v m) i := by
    intro m e
    rw [h]
    cases hat : at? e with
    | none => simp
    | some j => simp [cell_modify]
  have hcount := foldl_counted (v := fun m => cell (v m) i) hstep (new start) events
  simp only [hnew, cell_fill, zero_add] at hcount
  exact hcount

omit [DecidableEq ι] in
theorem table_observed (v : Metrics → Table ι Histogram) (pick? : ι → Event → Option Nat)
    (h : ∀ m e i, cell (v (record floats m e)) i =
      (pick? i e).elim (cell (v m) i) (cell (v m) i).observe)
    {start : Counter} (hnew : v (new start) = fill ι .default) (events : List Event) (i : ι) :
    cell (v (recorded floats start events)) i = observed (events.filterMap (pick? i)) := by
  have hfold := foldl_observed (v := fun m => cell (v m) i) (fun m e => h m e i) (new start) events
  simp only [hnew, cell_fill] at hfold
  exact hfold

theorem lastSuccess_recorded (start : Counter) (events : List Event) :
    (recorded floats start events).refreshLastSuccess =
      (events.filterMap Event.succeeded?).getLast?.getD 0 := by
  have hstep : ∀ (m : Metrics) (e : Event), (record floats m e).refreshLastSuccess =
      (Event.succeeded? e).elim m.refreshLastSuccess id := by
    intro m e
    cases e with
    | refreshRun success nanos now => cases success <;> rfl
    | _ => rfl
  have hlast := foldl_latest hstep (new start) events
  rw [recorded, hlast]
  cases (events.filterMap Event.succeeded?).getLast? with
  | none => rfl
  | some now => rfl

theorem lastDuration_cell (start : Counter) (events : List Event) :
    (recorded floats start events).refreshLastDuration =
      (events.filterMap Event.finished?).getLast?.elim 0 floats.toBits := by
  refine foldl_latest (v := Metrics.refreshLastDuration) (fun m e => ?_) (new start) events
  cases e with
  | _ => rfl

theorem lastDuration_recorded (start : Counter) (events : List Event) :
    LastDuration floats (recorded floats start events) := by
  unfold LastDuration
  rw [lastDuration_cell]
  cases (events.filterMap Event.finished?).getLast? with
  | none => exact .inl rfl
  | some nanos => exact .inr ⟨nanos, rfl⟩

/-- One event moves the gauge, as long as it does not wrap around. -/
theorem inflight_record {m : Metrics} {n : Nat} (hn : n < 2 ^ 64) (h : m.inflight = (n : Counter))
    (e : Event) : (record floats m e).inflight = (e.gauge n : Counter) := by
  cases e with
  | inflightAdd =>
    simp only [record, inflightAdd, Event.gauge, h, Nat.cast_add, Nat.cast_one]
  | inflightSub =>
    change (if m.inflight = 0 then 0 else m.inflight - 1) = ((n - 1 : Nat) : Counter)
    rw [h]
    cases n with
    | zero => rfl
    | succ n =>
      have hne : ((n + 1 : Nat) : Counter) ≠ 0 := by
        intro hzero
        have htoNat := congrArg BitVec.toNat hzero
        rw [BitVec.natCast_eq_ofNat, BitVec.toNat_ofNat, Nat.mod_eq_of_lt hn] at htoNat
        cases htoNat
      rw [if_neg hne, Nat.add_sub_cancel, Nat.cast_add, Nat.cast_one, add_sub_cancel_right]
  | _ => exact h

theorem Event.gauge_le (e : Event) (n : Nat) : e.gauge n ≤ n + 1 := by
  cases e with
  | inflightAdd => exact Nat.le_refl _
  | inflightSub => exact Nat.le_trans (Nat.sub_le n 1) (Nat.le_succ n)
  | _ => exact Nat.le_succ n

theorem inflight_recorded (start : Counter) {events : List Event} (hlen : events.length < 2 ^ 64) :
    (recorded floats start events).inflight = (inflightOf events : Counter) := by
  -- the gauge stays below the number of events that have passed
  have hfold : ∀ (m : Metrics) (n : Nat), n + events.length < 2 ^ 64 → m.inflight = (n : Counter) →
      (events.foldl (record floats) m).inflight =
        (events.foldl (fun n e => e.gauge n) n : Nat) := by
    clear hlen
    induction events with
    | nil => exact fun m n _ h => h
    | cons e events ih =>
      intro m n hn h
      rw [List.length_cons] at hn
      have hle := e.gauge_le n
      have hnext : e.gauge n + events.length < 2 ^ 64 := by omega
      exact ih _ _ hnext (inflight_record (by omega) h e)
  exact hfold (new start) 0 (by omega) rfl

/-- One of the samples has this value. -/
def Shows (number : List Char → Option V) (samples : List (Sample V)) (name : String)
    (labels : List Label) (value : List Char) : Prop :=
  ∃ v, number value = some v ∧ ⟨name, labels, v⟩ ∈ samples

/-- A histogram of these durations is shown: how many were within each bound, their sum
and their number. -/
structure ShowsHistogram (floats : Floats) (number : List Char → Option V)
    (samples : List (Sample V)) (name : String) (labels : List Label) (durations : List Nat) :
    Prop where
  bucket : durations ≠ [] → ∀ bucket, Shows number samples (name ++ "_bucket")
    (labels ++ [("le", asStr bucket)]) (decimal (durations.countP (Fits bucket) : Nat))
  sum : durations ≠ [] → Shows number samples (name ++ "_sum") labels
    (floats.seconds ((durations.map fun nanos => min nanos (2 ^ 64 - 1)).sum : Nat))
  count : durations ≠ [] → Shows number samples (name ++ "_count") labels
    (decimal (durations.length : Nat))

/-- What a reader learns of the recordings. -/
structure Reports (floats : Floats) (number : List Char → Option V) (events : List Event)
    (samples : List (Sample V)) : Prop where
  unique : (samples.map fun s => (s.name, s.labels)).Nodup
  lookups : ∀ p, Shows number samples "pccs_cache_lookups_total" (grid "kind" "result" p)
    (decimal (countOf Event.lookup? events p : Nat))
  stored : ∀ kind, ShowsHistogram floats number samples "pccs_store_read_duration_seconds"
    (row "kind" kind) (events.filterMap (Event.stored? kind))
  waited : ∀ kind, ShowsHistogram floats number samples "pccs_cache_singleflight_wait_seconds"
    (row "kind" kind) (events.filterMap (Event.waited? kind))
  attempts : ∀ p, Shows number samples "pccs_upstream_requests_total"
    (grid "upstream" "status" p) (decimal (countOf Event.attempt? events p : Nat))
  tried : ∀ upstream, ShowsHistogram floats number samples
    "pccs_upstream_attempt_duration_seconds" (row "upstream" upstream)
    (events.filterMap (Event.tried? upstream))
  throttled : ∀ upstream, Shows number samples "pccs_upstream_throttled_total"
    (row "upstream" upstream) (decimal (countOf Event.throttled? events upstream : Nat))
  permitted : ShowsHistogram floats number samples "pccs_upstream_permit_wait_seconds" []
    (events.filterMap Event.permitted?)
  inflight : Shows number samples "pccs_upstream_inflight" [] (decimal (inflightOf events : Nat))
  runs : ∀ success, Shows number samples "pccs_refresh_runs_total" (row "result" success)
    (decimal (countOf Event.run? events success : Nat))
  items : ∀ p, Shows number samples "pccs_refresh_items_total" (grid "kind" "result" p)
    (decimal (countOf Event.item? events p : Nat))
  lastSuccess : Shows number samples "pccs_refresh_last_success_timestamp_seconds" []
    (decimal ((events.filterMap Event.succeeded?).getLast?.getD 0))
  lastDuration : Shows number samples "pccs_refresh_last_duration_seconds" []
    (floats.fromBits ((events.filterMap Event.finished?).getLast?.elim 0 floats.toBits))
  requests : ∀ p, Shows number samples "pccs_http_requests_total"
    (grid "route" "status_class" p) (decimal (countOf Event.http? events p : Nat))
  handled : ∀ route, ShowsHistogram floats number samples "pccs_http_request_duration_seconds"
    (row "route" route) (events.filterMap (Event.handled? route))

end Events

section Reported

variable {V : Type} {floats : Floats} {number : List Char → Option V} {m : Metrics}

theorem shows_series (hread : Readable floats number) (hlast : LastDuration floats m)
    {f : Family} (hf : f ∈ families floats m) {s : Series} (hs : s ∈ f.series) :
    Shows number ((families floats m).flatMap (Family.samples number)) (f.name ++ s.suffix)
      s.labels s.value :=
  mem_samples (families_wellFormed hread hlast).each hf hs

theorem shows_counters {ι : Type} [Indexed ι] (hread : Readable floats number)
    (hlast : LastDuration floats m) {name help : String} {labels : ι → List Label}
    {table : Table ι Counter} (hf : counters name help labels table ∈ families floats m) (i : ι) :
    Shows number ((families floats m).flatMap (Family.samples number)) name (labels i)
      (decimal (cell table i)) := by
  have hs : (⟨"", labels i, decimal (cell table i)⟩ : Series) ∈
      (counters name help labels table).series :=
    List.mem_map.mpr ⟨i, mem_all i, rfl⟩
  have hshows := shows_series hread hlast hf hs
  simpa [counters] using hshows

theorem shows_gauge (hread : Readable floats number) (hlast : LastDuration floats m)
    {name help : String} {labels : List Label} {value : List Char}
    (hf : gauge name help labels value ∈ families floats m) :
    Shows number ((families floats m).flatMap (Family.samples number)) name labels value := by
  have hs : (⟨"", labels, value⟩ : Series) ∈ (gauge name help labels value).series :=
    List.mem_singleton_self _
  have hshows := shows_series hread hlast hf hs
  simpa [gauge] using hshows

theorem shows_histogram (hread : Readable floats number) (hlast : LastDuration floats m)
    {f : Family} (hf : f ∈ families floats m) {labels : List Label} {durations : List Nat}
    (hlen : durations.length < 2 ^ 64)
    (hs : ∀ s ∈ (observed durations).series floats labels, s ∈ f.series) :
    ShowsHistogram floats number ((families floats m).flatMap (Family.samples number)) f.name
      labels durations where
  bucket hne bucket :=
    shows_series hread hlast hf (hs _ (observed_series labels hlen hne bucket))
  sum hne := shows_series hread hlast hf (hs _ (observed_sum_count labels hlen hne).1)
  count hne := shows_series hread hlast hf (hs _ (observed_sum_count labels hlen hne).2)

theorem shows_histograms {ι : Type} [Indexed ι] (hread : Readable floats number)
    (hlast : LastDuration floats m) {name help : String} {labels : ι → List Label}
    {table : Table ι Histogram}
    (hf : histograms floats name help labels table ∈ families floats m) {i : ι}
    {durations : List Nat} (hcell : cell table i = observed durations)
    (hlen : durations.length < 2 ^ 64) :
    ShowsHistogram floats number ((families floats m).flatMap (Family.samples number)) name
      (labels i) durations := by
  refine shows_histogram hread hlast hf hlen fun s hs => ?_
  exact List.mem_flatMap.mpr ⟨i, mem_all i, by rwa [hcell]⟩

theorem recorded_cells (start : Counter) (events : List Event) :
    (∀ p, cell (recorded floats start events).cache p = (countOf Event.lookup? events p : Counter)) ∧
    (∀ p, cell (recorded floats start events).upstream p =
      (countOf Event.attempt? events p : Counter)) ∧
    (∀ p, cell (recorded floats start events).throttled p =
      (countOf Event.throttled? events p : Counter)) ∧
    (∀ p, cell (recorded floats start events).refreshRuns p =
      (countOf Event.run? events p : Counter)) ∧
    (∀ p, cell (recorded floats start events).refreshItems p =
      (countOf Event.item? events p : Counter)) ∧
    (∀ p, cell (recorded floats start events).http p =
      (countOf Event.http? events p : Counter)) := by
  refine ⟨table_counted Metrics.cache _ (fun m e => ?_) rfl events,
    table_counted Metrics.upstream _ (fun m e => ?_) rfl events,
    table_counted Metrics.throttled _ (fun m e => ?_) rfl events,
    table_counted Metrics.refreshRuns _ (fun m e => ?_) rfl events,
    table_counted Metrics.refreshItems _ (fun m e => ?_) rfl events,
    table_counted Metrics.http _ (fun m e => ?_) rfl events⟩
  all_goals
    cases e
    all_goals rfl

theorem cell_observe {ι : Type} [Indexed ι] [DecidableEq ι] (table : Table ι Histogram) (i j : ι)
    (nanos : Nat) : cell (modify table i (·.observe nanos)) j =
      (if i = j then some nanos else none).elim (cell table j) (cell table j).observe := by
  rw [cell_modify]
  split
  · rfl
  · rfl

theorem recorded_histograms (start : Counter) (events : List Event) :
    (∀ i, cell (recorded floats start events).store i =
      observed (events.filterMap (Event.stored? i))) ∧
    (∀ i, cell (recorded floats start events).singleflight i =
      observed (events.filterMap (Event.waited? i))) ∧
    (∀ i, cell (recorded floats start events).upstreamDuration i =
      observed (events.filterMap (Event.tried? i))) ∧
    (∀ i, cell (recorded floats start events).httpDuration i =
      observed (events.filterMap (Event.handled? i))) ∧
    (recorded floats start events).permit = observed (events.filterMap Event.permitted?) := by
  refine ⟨table_observed Metrics.store _ (fun m e i => ?_) rfl events,
    table_observed Metrics.singleflight _ (fun m e i => ?_) rfl events,
    table_observed Metrics.upstreamDuration _ (fun m e i => ?_) rfl events,
    table_observed Metrics.httpDuration _ (fun m e i => ?_) rfl events,
    foldl_observed (v := Metrics.permit) (fun m e => ?_) (new start) events⟩
  · cases e with
    | storeRead kind nanos => exact cell_observe m.store kind i nanos
    | _ => rfl
  · cases e with
    | singleflightWait kind nanos => exact cell_observe m.singleflight kind i nanos
    | _ => rfl
  · cases e with
    | upstreamAttempt upstream status nanos => exact cell_observe m.upstreamDuration upstream i nanos
    | _ => rfl
  · cases e with
    | httpRequest route status nanos => exact cell_observe m.httpDuration (routeIndex route) i nanos
    | _ => rfl
  · cases e with
    | _ => rfl

/-- Whole seconds only, and whole numbers read. -/
def wholeFloats : Floats :=
  ⟨fun n => (toString (n.toNat / 10 ^ 9)).toList, fun _ => (toString 0).toList, fun _ => 0⟩

def wholeNumber (text : List Char) : Option Nat := (String.ofList text).toNat?

theorem wholeNumber_toString (n : Nat) : wholeNumber (toString n).toList = some n := by
  rw [wholeNumber, String.ofList_toList]
  exact Nat.toNat?_repr n

theorem readable_whole : Readable wholeFloats wholeNumber where
  decimal n := by rw [decimal, wholeNumber_toString, Option.isSome_some]
  seconds n := ⟨inline_toString _, by rw [wholeFloats, wholeNumber_toString, Option.isSome_some]⟩
  zero := ⟨inline_toString 0, by
    rw [show wholeFloats.fromBits 0 = (toString 0).toList from rfl, wholeNumber_toString]
    rfl⟩
  duration _ := ⟨inline_toString 0, by
    rw [show wholeFloats.fromBits _ = (toString 0).toList from rfl, wholeNumber_toString]
    rfl⟩

/-- Two hits, a wait of one second, two attempts of which one is over, and a
refresh that was a success before one that was not. -/
def someEvents : List Event :=
  [.cacheLookup .pckcert .hit, .permitWait 1000000000, .inflightAdd, .inflightAdd,
    .refreshRun true 2000000000 1700000000, .inflightSub, .refreshRun false 3000000000 1700000060,
    .cacheLookup .pckcert .hit]

end Reported

end Pccs.Metrics
