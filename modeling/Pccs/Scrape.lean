import Pccs.Metrics
import Pccs.Text

/-!
# The scrape of the registry

The registry is written as text, family by family. The text is read again to one
sample for each series, and after any sequence of recordings each sample is what
was recorded.
-/
namespace Pccs.Metrics

open Cells Exposition Text

section Render

def decimal (n : Counter) : List Char := (toString n.toNat).toList

/-- `u64::saturating_add`. -/
def saturatingAdd (a b : Counter) : Counter :=
  if a.toNat + b.toNat < 2 ^ 64 then a + b else BitVec.allOnes 64

/-- The lines of the buckets, and what they add up to. -/
def renderBuckets (h : Histogram) (name : String) (labels : List Label) :
    Counter → List Bucket → List Char × Counter
  | cumulative, [] => ([], cumulative)
  | cumulative, bucket :: rest =>
    let cumulative := saturatingAdd cumulative (cell h.buckets bucket)
    let (text, last) := renderBuckets h name labels cumulative rest
    ((name ++ "_bucket").toList ++ (renderLabels labels (some ("le", asStr bucket)) ++
      ' ' :: (decimal cumulative ++ '\n' :: text)), last)

/-- A histogram without observations is not shown. -/
def Histogram.render (floats : Floats) (h : Histogram) (name : String) (labels : List Label) :
    List Char :=
  if h.count = 0 then []
  else
    let (text, cumulative) := renderBuckets h name labels 0 all
    text ++ (sample (name ++ "_sum") labels (floats.seconds h.sumNanos) ++
      sample (name ++ "_count") labels (decimal cumulative))

def cargoPkgVersion : String := "0.4.5"

def render (floats : Floats) (m : Metrics) : List Char :=
  family "process_start_time_seconds" "gauge"
    "Unix timestamp when this metrics registry started." ++
  sample "process_start_time_seconds" [] (decimal m.processStart) ++
  family "pccs_build_info" "gauge" "Build version information." ++
  sample "pccs_build_info" [("version", cargoPkgVersion)] (decimal 1) ++
  family "pccs_cache_lookups_total" "counter"
    "Cache lookup outcomes: hit, miss and expired are mutually exclusive; hit rate is hit/(hit+miss+expired). recent_failure, recent_non200 and local_select are follow-up events after miss, excluded from that denominator." ++
  (all.flatMap fun kind : Kind => all.flatMap fun result : CacheResult =>
    sample "pccs_cache_lookups_total" [("kind", asStr kind), ("result", asStr result)]
      (decimal (cell m.cache (kind, result)))) ++
  family "pccs_store_read_duration_seconds" "histogram"
    "RocksDB get latency in seconds, excluding deserialization (counted in Server-Timing app)." ++
  (all.flatMap fun kind : Kind =>
    (cell m.store kind).render floats "pccs_store_read_duration_seconds" [("kind", asStr kind)]) ++
  family "pccs_cache_singleflight_wait_seconds" "histogram"
    "Singleflight lock wait in seconds." ++
  (all.flatMap fun kind : Kind =>
    (cell m.singleflight kind).render floats "pccs_cache_singleflight_wait_seconds"
      [("kind", asStr kind)]) ++
  family "pccs_upstream_requests_total" "counter" "Upstream attempt outcomes." ++
  (all.flatMap fun upstream : Upstream => all.flatMap fun status : UpstreamStatus =>
    sample "pccs_upstream_requests_total"
      [("upstream", asStr upstream), ("status", asStr status)]
      (decimal (cell m.upstream (upstream, status)))) ++
  family "pccs_upstream_attempt_duration_seconds" "histogram"
    "Upstream attempt latency in seconds." ++
  (all.flatMap fun upstream : Upstream =>
    (cell m.upstreamDuration upstream).render floats "pccs_upstream_attempt_duration_seconds"
      [("upstream", asStr upstream)]) ++
  family "pccs_upstream_throttled_total" "counter"
    "Retries after upstream 429 or 503 responses." ++
  (all.flatMap fun upstream : Upstream =>
    sample "pccs_upstream_throttled_total" [("upstream", asStr upstream)]
      (decimal (cell m.throttled upstream))) ++
  family "pccs_upstream_permit_wait_seconds" "histogram"
    "Upstream semaphore wait in seconds." ++
  m.permit.render floats "pccs_upstream_permit_wait_seconds" [] ++
  family "pccs_upstream_inflight" "gauge" "Currently active upstream attempts." ++
  sample "pccs_upstream_inflight" [] (decimal m.inflight) ++
  family "pccs_refresh_runs_total" "counter" "Completed refresh runs." ++
  (all.flatMap fun success : Bool =>
    sample "pccs_refresh_runs_total" [("result", asStr success)]
      (decimal (cell m.refreshRuns success))) ++
  family "pccs_refresh_items_total" "counter" "Refresh item outcomes." ++
  (all.flatMap fun kind : Kind => all.flatMap fun success : Bool =>
    sample "pccs_refresh_items_total" [("kind", asStr kind), ("result", asStr success)]
      (decimal (cell m.refreshItems (kind, success)))) ++
  family "pccs_refresh_last_success_timestamp_seconds" "gauge"
    "Unix timestamp of the last successful refresh." ++
  sample "pccs_refresh_last_success_timestamp_seconds" [] (decimal m.refreshLastSuccess) ++
  family "pccs_refresh_last_duration_seconds" "gauge"
    "Duration of the last completed refresh in seconds." ++
  sample "pccs_refresh_last_duration_seconds" [] (floats.fromBits m.refreshLastDuration) ++
  family "pccs_http_requests_total" "counter"
    "HTTP responses by bounded route and status class." ++
  (all.flatMap fun route : Route => all.flatMap fun statusClass : StatusClass =>
    sample "pccs_http_requests_total" [("route", asStr route), ("status_class", asStr statusClass)]
      (decimal (cell m.http (route, statusClass)))) ++
  family "pccs_http_request_duration_seconds" "histogram" "HTTP handler latency in seconds." ++
  (all.flatMap fun route : Route =>
    (cell m.httpDuration route).render floats "pccs_http_request_duration_seconds"
      [("route", asStr route)])

end Render

section Families

variable {ι κ : Type}

/-- The buckets as series, with what is counted up to each. -/
def bucketSeries (h : Histogram) (labels : List Label) : Counter → List Bucket → List Series
  | _, [] => []
  | cumulative, bucket :: rest =>
    let cumulative := saturatingAdd cumulative (cell h.buckets bucket)
    ⟨"_bucket", labels ++ [("le", asStr bucket)], decimal cumulative⟩ ::
      bucketSeries h labels cumulative rest

/-- All that was observed. -/
def Histogram.total (h : Histogram) : Counter :=
  (all : List Bucket).foldl
    (fun cumulative bucket => saturatingAdd cumulative (cell h.buckets bucket)) 0

def Histogram.series (floats : Floats) (h : Histogram) (labels : List Label) : List Series :=
  if h.count = 0 then []
  else bucketSeries h labels 0 all ++ [⟨"_sum", labels, floats.seconds h.sumNanos⟩,
    ⟨"_count", labels, decimal h.total⟩]

def gauge (name help : String) (labels : List Label) (value : List Char) : Family :=
  ⟨name, "gauge", help, [⟨"", labels, value⟩]⟩

/-- A counter for each place. -/
def counters [Indexed ι] (name help : String) (labels : ι → List Label) (table : Table ι Counter) :
    Family :=
  ⟨name, "counter", help, all.map fun i => ⟨"", labels i, decimal (cell table i)⟩⟩

def histogram (floats : Floats) (name help : String) (labels : List Label) (h : Histogram) :
    Family := ⟨name, "histogram", help, h.series floats labels⟩

/-- A histogram for each place. -/
def histograms [Indexed ι] (floats : Floats) (name help : String) (labels : ι → List Label)
    (table : Table ι Histogram) : Family :=
  ⟨name, "histogram", help, all.flatMap fun i => (cell table i).series floats (labels i)⟩

def row [Labels ι] (key : String) (i : ι) : List Label := [(key, asStr i)]

def grid [Labels ι] [Labels κ] (key key' : String) (p : ι × κ) : List Label :=
  [(key, asStr p.1), (key', asStr p.2)]

def families (floats : Floats) (m : Metrics) : List Family := [
  gauge "process_start_time_seconds" "Unix timestamp when this metrics registry started." []
    (decimal m.processStart),
  gauge "pccs_build_info" "Build version information." [("version", cargoPkgVersion)] (decimal 1),
  counters "pccs_cache_lookups_total"
    "Cache lookup outcomes: hit, miss and expired are mutually exclusive; hit rate is hit/(hit+miss+expired). recent_failure, recent_non200 and local_select are follow-up events after miss, excluded from that denominator."
    (grid "kind" "result") m.cache,
  histograms floats "pccs_store_read_duration_seconds"
    "RocksDB get latency in seconds, excluding deserialization (counted in Server-Timing app)."
    (row "kind") m.store,
  histograms floats "pccs_cache_singleflight_wait_seconds" "Singleflight lock wait in seconds."
    (row "kind") m.singleflight,
  counters "pccs_upstream_requests_total" "Upstream attempt outcomes." (grid "upstream" "status")
    m.upstream,
  histograms floats "pccs_upstream_attempt_duration_seconds" "Upstream attempt latency in seconds."
    (row "upstream") m.upstreamDuration,
  counters "pccs_upstream_throttled_total" "Retries after upstream 429 or 503 responses."
    (row "upstream") m.throttled,
  histogram floats "pccs_upstream_permit_wait_seconds" "Upstream semaphore wait in seconds." []
    m.permit,
  gauge "pccs_upstream_inflight" "Currently active upstream attempts." [] (decimal m.inflight),
  counters "pccs_refresh_runs_total" "Completed refresh runs." (row "result") m.refreshRuns,
  counters "pccs_refresh_items_total" "Refresh item outcomes." (grid "kind" "result")
    m.refreshItems,
  gauge "pccs_refresh_last_success_timestamp_seconds"
    "Unix timestamp of the last successful refresh." [] (decimal m.refreshLastSuccess),
  gauge "pccs_refresh_last_duration_seconds" "Duration of the last completed refresh in seconds." []
    (floats.fromBits m.refreshLastDuration),
  counters "pccs_http_requests_total" "HTTP responses by bounded route and status class."
    (grid "route" "status_class") m.http,
  histograms floats "pccs_http_request_duration_seconds" "HTTP handler latency in seconds."
    (row "route") m.httpDuration]

theorem renderLabels_extra (labels : List Label) (label : Label) :
    renderLabels labels (some label) = renderLabels (labels ++ [label]) none := by
  simp [renderLabels]

theorem renderBuckets_eq (h : Histogram) (name : String) (labels : List Label)
    (cumulative : Counter) (buckets : List Bucket) :
    renderBuckets h name labels cumulative buckets =
      ((bucketSeries h labels cumulative buckets).flatMap (Series.write name),
        buckets.foldl (fun sum bucket => saturatingAdd sum (cell h.buckets bucket)) cumulative) := by
  induction buckets generalizing cumulative with
  | nil => rfl
  | cons bucket rest ih =>
    simp only [renderBuckets, ih, bucketSeries, List.flatMap_cons, List.foldl_cons, Series.write,
      sample, renderLabels_extra, List.append_assoc, List.cons_append, List.nil_append]

theorem render_histogram (floats : Floats) (h : Histogram) (name : String) (labels : List Label) :
    h.render floats name labels = (h.series floats labels).flatMap (Series.write name) := by
  unfold Histogram.render Histogram.series
  split
  · rfl
  · rw [renderBuckets_eq, List.flatMap_append]
    simp [Series.write, Histogram.total]

theorem write_gauge (name help : String) (labels : List Label) (value : List Char) :
    (gauge name help labels value).write = family name "gauge" help ++ sample name labels value := by
  simp [gauge, Family.write, Series.write]

theorem write_counters [Indexed ι] (name help : String) (labels : ι → List Label)
    (table : Table ι Counter) :
    (counters name help labels table).write = family name "counter" help ++
      all.flatMap fun i => sample name (labels i) (decimal (cell table i)) := by
  simp [counters, Family.write, Series.write, List.flatMap_map]

theorem write_histogram (floats : Floats) (name help : String) (labels : List Label)
    (h : Histogram) : (histogram floats name help labels h).write =
      family name "histogram" help ++ h.render floats name labels := by
  simp [histogram, Family.write, render_histogram]

theorem write_histograms [Indexed ι] (floats : Floats) (name help : String)
    (labels : ι → List Label) (table : Table ι Histogram) :
    (histograms floats name help labels table).write = family name "histogram" help ++
      all.flatMap fun i => (cell table i).render floats name (labels i) := by
  simp [histograms, Family.write, render_histogram, List.flatMap_assoc]

/-- The scrape is the text of the families. -/
theorem render_eq (floats : Floats) (m : Metrics) :
    render floats m = (families floats m).flatMap Family.write := by
  simp only [families, List.flatMap_cons, List.flatMap_nil, write_gauge, write_counters,
    write_histogram, write_histograms, flatMap_all, grid, row, List.append_nil]
  unfold render
  simp only [List.append_assoc]

end Families

section WellFormed

variable {ι κ V : Type} {floats : Floats} {number : List Char → Option V}

/-- Numbers that are printed can be read. -/
structure Readable (floats : Floats) (number : List Char → Option V) : Prop where
  decimal : ∀ n, (number (decimal n)).isSome = true
  seconds : ∀ n, Inline (floats.seconds n) ∧ (number (floats.seconds n)).isSome = true
  zero : Inline (floats.fromBits 0) ∧ (number (floats.fromBits 0)).isSome = true
  duration : ∀ nanos, Inline (floats.fromBits (floats.toBits nanos)) ∧
    (number (floats.fromBits (floats.toBits nanos))).isSome = true

theorem inline_toString (n : Nat) : Inline (toString n).toList := by
  constructor
  · intro h
    have := digit_of_mem_toString h
    simp at this
  · intro h
    have := digit_of_mem_toString h
    simp at this

theorem inline_decimal (n : Counter) : Inline (decimal n) := inline_toString _

/-- Labels that a reader takes, one of which may be added. -/
structure Keyed (labels : List Label) : Prop where
  keys : ∀ label ∈ labels, IsKey label.1
  nodup : (labels.map Prod.fst).Nodup
  noLe : "le" ∉ labels.map Prod.fst

theorem keyed_nil : Keyed [] where
  keys := by simp
  nodup := List.nodup_nil
  noLe := by simp

theorem keyed_single {key value : String} (h : IsKey key) (hle : key ≠ "le") :
    Keyed [(key, value)] where
  keys := by simpa using h
  nodup := by simp
  noLe := by simpa using hle.symm

theorem keyed_grid [Labels ι] [Labels κ] {key key' : String} (h : IsKey key) (h' : IsKey key')
    (hne : key ≠ key') (hle : key ≠ "le") (hle' : key' ≠ "le") (p : ι × κ) :
    Keyed (grid key key' p) where
  keys := by simpa [grid] using ⟨h, h'⟩
  nodup := by simpa [grid] using hne
  noLe := by simpa [grid] using ⟨hle.symm, hle'.symm⟩

theorem series_wellFormed {suffix : String} {labels : List Label} {value : List Char}
    (hsuffix : suffix ∈ "" :: suffixes) (h : Keyed labels) (hvalue : Inline value)
    (hnumber : (number value).isSome = true) :
    Series.WellFormed number ⟨suffix, labels, value⟩ where
  suffix := hsuffix
  keys := h.keys
  nodup := h.nodup
  inline := hvalue
  number := hnumber

theorem bucketSeries_wellFormed (hread : Readable floats number) (h : Histogram)
    {labels : List Label} (hlabels : Keyed labels) (cumulative : Counter) (buckets : List Bucket) :
    ∀ s ∈ bucketSeries h labels cumulative buckets, s.WellFormed number := by
  induction buckets generalizing cumulative with
  | nil => simp [bucketSeries]
  | cons bucket rest ih =>
    have hsuffix : "_bucket" ∈ "" :: suffixes := by decide
    have hkey : IsKey "le" := ⟨by decide, by decide⟩
    rw [bucketSeries, List.forall_mem_cons]
    refine ⟨?_, ih _⟩
    exact {
      suffix := hsuffix
      keys := by
        rw [List.forall_mem_append, List.forall_mem_singleton]
        exact ⟨hlabels.keys, hkey⟩
      nodup := by
        rw [List.map_append, List.nodup_append]
        refine ⟨hlabels.nodup, by simp, ?_⟩
        rintro a ha b hb rfl
        rw [List.map_singleton, List.mem_singleton] at hb
        rw [hb] at ha
        exact hlabels.noLe ha
      inline := inline_decimal _
      number := hread.decimal _ }

theorem histogram_wellFormed (hread : Readable floats number) (h : Histogram)
    {labels : List Label} (hlabels : Keyed labels) :
    ∀ s ∈ h.series floats labels, s.WellFormed number := by
  unfold Histogram.series
  split
  · simp
  · rw [List.forall_mem_append]
    refine ⟨bucketSeries_wellFormed hread h hlabels _ _, ?_⟩
    rw [List.forall_mem_cons, List.forall_mem_singleton]
    exact ⟨series_wellFormed (by decide) hlabels (hread.seconds _).1 (hread.seconds _).2,
      series_wellFormed (by decide) hlabels (inline_decimal _) (hread.decimal _)⟩

/-- The buckets of one histogram differ in their last label. -/
theorem bucketSeries_keys (h : Histogram) (labels : List Label) (cumulative : Counter)
    (buckets : List Bucket) :
    (bucketSeries h labels cumulative buckets).map Series.key =
      buckets.map fun bucket => ("_bucket", labels ++ [("le", asStr bucket)]) := by
  induction buckets generalizing cumulative with
  | nil => rfl
  | cons bucket rest ih =>
    rw [bucketSeries, List.map_cons, ih]
    rfl

theorem asStr_inj [Labels ι] {i j : ι} (h : asStr i = asStr j) : i = j :=
  List.inj_on_of_nodup_map Labels.distinct (mem_all i) (mem_all j) h

theorem histogram_keys (h : Histogram) (labels : List Label) :
    ((h.series floats labels).map Series.key).Nodup ∧
      ∀ k ∈ (h.series floats labels).map Series.key, labels <+: k.2 := by
  unfold Histogram.series
  split
  · simp
  · rw [List.map_append, bucketSeries_keys]
    constructor
    · rw [List.nodup_append]
      refine ⟨all_nodup.map ?_, by simp [Series.key], ?_⟩
      · intro b b' hb
        simp only [Prod.mk.injEq, List.append_cancel_left_eq, List.cons.injEq, true_and,
          and_true] at hb
        exact asStr_inj hb
      · intro k hk k' hk' heq
        obtain ⟨b, -, rfl⟩ := List.mem_map.mp hk
        subst heq
        simp [Series.key] at hk'
    · rw [List.forall_mem_append]
      constructor
      · intro k hk
        obtain ⟨b, -, rfl⟩ := List.mem_map.mp hk
        exact List.prefix_append _ _
      · simp [Series.key]

theorem heads_wellFormed (m : Metrics) : ∀ f ∈ families floats m,
    (f.name.toList.head?.any nameStart = true ∧ f.name.toList.all nameChar = true) ∧
      f.ty ∈ ["counter", "gauge", "histogram"] ∧ Inline f.help.toList := by
  simp only [families, List.forall_mem_cons, gauge, counters, histogram, histograms, Inline]
  refine ⟨?_, ?_, ?_, ?_, ?_, ?_, ?_, ?_, ?_, ?_, ?_, ?_, ?_, ?_, ?_, ?_, by simp⟩
  all_goals decide +kernel

theorem names_apart (m : Metrics) : ((families floats m).map Family.name).Pairwise fun a b =>
    ∀ s ∈ "" :: suffixes, ∀ s' ∈ "" :: suffixes, a ++ s ≠ b ++ s' := by
  simp only [families, List.map_cons, List.map_nil, gauge, counters, histogram, histograms]
  decide +kernel

theorem gauge_series {name help : String} {labels : List Label} {value : List Char}
    (hlabels : Keyed labels) (hvalue : Inline value) (hnumber : (number value).isSome = true) :
    (∀ s ∈ (gauge name help labels value).series, s.WellFormed number) ∧
      ((gauge name help labels value).series.map Series.key).Nodup := by
  rw [gauge, List.forall_mem_singleton]
  exact ⟨series_wellFormed (by decide) hlabels hvalue hnumber, by simp⟩

theorem counters_series [Indexed ι] (hread : Readable floats number) {name help : String}
    {labels : ι → List Label} (table : Table ι Counter) (hlabels : ∀ i, Keyed (labels i))
    (hinj : Function.Injective labels) :
    (∀ s ∈ (counters name help labels table).series, s.WellFormed number) ∧
      ((counters name help labels table).series.map Series.key).Nodup := by
  constructor
  · intro s hs
    obtain ⟨i, -, rfl⟩ := List.mem_map.mp hs
    exact series_wellFormed (by decide) (hlabels i) (inline_decimal _) (hread.decimal _)
  · rw [counters, List.map_map]
    refine all_nodup.map fun i j h => hinj ?_
    simpa [Series.key] using h

theorem row_inj [Labels ι] (key : String) : Function.Injective (row key : ι → List Label) := by
  intro i j h
  simp only [row, List.cons.injEq, Prod.mk.injEq, true_and, and_true] at h
  exact asStr_inj h

theorem grid_inj [Labels ι] [Labels κ] (key key' : String) :
    Function.Injective (grid key key' : ι × κ → List Label) := by
  intro p q h
  simp only [grid, List.cons.injEq, Prod.mk.injEq, true_and, and_true] at h
  exact Prod.ext (asStr_inj h.1) (asStr_inj h.2)

theorem histogram_series (hread : Readable floats number) {name help : String}
    {labels : List Label} (h : Histogram) (hlabels : Keyed labels) :
    (∀ s ∈ (histogram floats name help labels h).series, s.WellFormed number) ∧
      ((histogram floats name help labels h).series.map Series.key).Nodup :=
  ⟨histogram_wellFormed hread h hlabels, (histogram_keys h labels).1⟩

/-- Two histograms of a family differ in their first label. -/
theorem histograms_series [Labels ι] (hread : Readable floats number) {name help key : String}
    (table : Table ι Histogram) (hkey : IsKey key) (hle : key ≠ "le") :
    (∀ s ∈ (histograms floats name help (row key) table).series, s.WellFormed number) ∧
      ((histograms floats name help (row key) table).series.map Series.key).Nodup := by
  constructor
  · intro s hs
    obtain ⟨i, -, hs⟩ := List.mem_flatMap.mp hs
    exact histogram_wellFormed hread _ (keyed_single hkey hle) s hs
  · rw [histograms, List.map_flatMap, List.nodup_flatMap]
    refine ⟨fun i _ => (histogram_keys _ _).1, all_nodup.imp fun {i j} hij => ?_⟩
    intro k hk hk'
    have hi := (histogram_keys _ _).2 k hk
    have hj := (histogram_keys _ _).2 k hk'
    have hrow : row key i = row key j :=
      (List.prefix_of_prefix_length_le hi hj (by simp [row])).eq_of_length (by simp [row])
    exact hij (row_inj key hrow)

/-- What the registry keeps of the last refresh is a duration, or nothing yet. -/
def LastDuration (floats : Floats) (m : Metrics) : Prop :=
  m.refreshLastDuration = 0 ∨ ∃ nanos, m.refreshLastDuration = floats.toBits nanos

theorem lastDuration_readable (hread : Readable floats number) {m : Metrics}
    (h : LastDuration floats m) : Inline (floats.fromBits m.refreshLastDuration) ∧
      (number (floats.fromBits m.refreshLastDuration)).isSome = true := by
  rcases h with h | ⟨nanos, h⟩
  · rw [h]
    exact hread.zero
  · rw [h]
    exact hread.duration nanos

theorem families_series (hread : Readable floats number) {m : Metrics}
    (hlast : LastDuration floats m) : ∀ f ∈ families floats m,
    (∀ s ∈ f.series, s.WellFormed number) ∧ (f.series.map Series.key).Nodup := by
  have hkey : ∀ key ∈ ["version", "kind", "result", "upstream", "status", "route",
      "status_class"], IsKey key ∧ key ≠ "le" := by
    simp only [IsKey]
    decide
  simp only [List.forall_mem_cons] at hkey
  obtain ⟨hversion, hkind, hresult, hupstream, hstatus, hroute, hclass, -⟩ := hkey
  have hdecimal : ∀ n, Inline (decimal n) ∧ (number (decimal n)).isSome = true :=
    fun n => ⟨inline_decimal n, hread.decimal n⟩
  have hgrid : ∀ {ι κ : Type} [Labels ι] [Labels κ] {key key' : String} {name help : String}
      (table : Table (ι × κ) Counter), IsKey key ∧ key ≠ "le" → IsKey key' ∧ key' ≠ "le" →
      key ≠ key' →
      (∀ s ∈ (counters name help (grid key key') table).series, s.WellFormed number) ∧
        ((counters name help (grid key key') table).series.map Series.key).Nodup :=
    fun table h h' hne => counters_series hread table
      (keyed_grid h.1 h'.1 hne h.2 h'.2) (grid_inj _ _)
  have hrow : ∀ {ι : Type} [Labels ι] {key name help : String} (table : Table ι Counter),
      IsKey key ∧ key ≠ "le" →
      (∀ s ∈ (counters name help (row key) table).series, s.WellFormed number) ∧
        ((counters name help (row key) table).series.map Series.key).Nodup :=
    fun table h => counters_series hread table (fun _ => keyed_single h.1 h.2) (row_inj _)
  simp only [families, List.forall_mem_cons]
  exact ⟨gauge_series keyed_nil (hdecimal _).1 (hdecimal _).2,
    gauge_series (keyed_single hversion.1 hversion.2) (hdecimal _).1 (hdecimal _).2,
    hgrid _ hkind hresult (by decide), histograms_series hread _ hkind.1 hkind.2,
    histograms_series hread _ hkind.1 hkind.2, hgrid _ hupstream hstatus (by decide),
    histograms_series hread _ hupstream.1 hupstream.2, hrow _ hupstream,
    histogram_series hread _ keyed_nil, gauge_series keyed_nil (hdecimal _).1 (hdecimal _).2,
    hrow _ hresult, hgrid _ hkind hresult (by decide),
    gauge_series keyed_nil (hdecimal _).1 (hdecimal _).2,
    gauge_series keyed_nil (lastDuration_readable hread hlast).1
      (lastDuration_readable hread hlast).2,
    hgrid _ hroute hclass (by decide), histograms_series hread _ hroute.1 hroute.2, by simp⟩

theorem families_wellFormed (hread : Readable floats number) {m : Metrics}
    (hlast : LastDuration floats m) : Exposition.WellFormed number (families floats m) := by
  refine wellFormed_of_names (fun f hf => ?_) (fun f hf => (families_series hread hlast f hf).2)
    (names_apart m)
  obtain ⟨⟨hstart, hname⟩, hty, hhelp⟩ := heads_wellFormed m f hf
  exact ⟨hstart, hname, hty, hhelp, (families_series hread hlast f hf).1⟩

/-- The scrape is read as the samples of the families. -/
theorem parse_render (hread : Readable floats number) {m : Metrics}
    (hlast : LastDuration floats m) :
    parseSamples number (render floats m) =
      some ((families floats m).flatMap (Family.samples number)) := by
  rw [render_eq]
  exact parse_write (families_wellFormed hread hlast)

end WellFormed

end Pccs.Metrics
