import Pccs.Cells
import Pccs.Exposition
import Mathlib.Data.BitVec

/-!
# The metrics registry

Counters are atomic 64-bit words that wrap around. They lie in fixed storage,
indexed by enumerations, so no request can make a new time series. A recording is
one call; durations are in nanoseconds.
-/
namespace Pccs.Metrics

open Cells Exposition

/-- What `labels!` declares: an enumeration and its labels. -/
class Labels (ι : Type) extends Indexed ι where
  asStr : ι → String
  distinct : (all.map asStr).Nodup

export Labels (asStr)

inductive Kind where
  | pckcert | pckcrl | sgxTcb | tdxTcb | qeIdentity | qveIdentity | tdqeIdentity | rootcacrl | crl
  | amdKds | nvidiaRim | nvidiaOcsp
  deriving DecidableEq

instance : Labels Kind where
  all := [.pckcert, .pckcrl, .sgxTcb, .tdxTcb, .qeIdentity, .qveIdentity, .tdqeIdentity,
    .rootcacrl, .crl, .amdKds, .nvidiaRim, .nvidiaOcsp]
  index := Kind.ctorIdx
  index_all := by decide
  mem_all kind := by cases kind <;> decide
  asStr
    | .pckcert => "pckcert" | .pckcrl => "pckcrl" | .sgxTcb => "sgx_tcb" | .tdxTcb => "tdx_tcb"
    | .qeIdentity => "qe_identity" | .qveIdentity => "qve_identity"
    | .tdqeIdentity => "tdqe_identity" | .rootcacrl => "rootcacrl" | .crl => "crl"
    | .amdKds => "amd_kds" | .nvidiaRim => "nvidia_rim" | .nvidiaOcsp => "nvidia_ocsp"
  distinct := by decide

inductive CacheResult where
  | hit | miss | expired | recentFailure | recentNon200 | localSelect
  deriving DecidableEq

instance : Labels CacheResult where
  all := [.hit, .miss, .expired, .recentFailure, .recentNon200, .localSelect]
  index := CacheResult.ctorIdx
  index_all := by decide
  mem_all result := by cases result <;> decide
  asStr
    | .hit => "hit" | .miss => "miss" | .expired => "expired"
    | .recentFailure => "recent_failure" | .recentNon200 => "recent_non200"
    | .localSelect => "local_select"
  distinct := by decide

inductive Upstream where
  | intelPcs | intelCerts | amdKds | nvidiaRim | nvidiaOcsp | nvidiaNras | pccs
  deriving DecidableEq

instance : Labels Upstream where
  all := [.intelPcs, .intelCerts, .amdKds, .nvidiaRim, .nvidiaOcsp, .nvidiaNras, .pccs]
  index := Upstream.ctorIdx
  index_all := by decide
  mem_all upstream := by cases upstream <;> decide
  asStr
    | .intelPcs => "intel_pcs" | .intelCerts => "intel_certs" | .amdKds => "amd_kds"
    | .nvidiaRim => "nvidia_rim" | .nvidiaOcsp => "nvidia_ocsp"
    | .nvidiaNras => "nvidia_nras" | .pccs => "pccs"
  distinct := by decide

inductive UpstreamStatus where
  | s200 | s404 | s429 | s503 | other4xx | other5xx | timeout | error | other
  deriving DecidableEq

instance : Labels UpstreamStatus where
  all := [.s200, .s404, .s429, .s503, .other4xx, .other5xx, .timeout, .error, .other]
  index := UpstreamStatus.ctorIdx
  index_all := by decide
  mem_all status := by cases status <;> decide
  asStr
    | .s200 => "200" | .s404 => "404" | .s429 => "429" | .s503 => "503"
    | .other4xx => "other_4xx" | .other5xx => "other_5xx" | .timeout => "timeout"
    | .error => "error" | .other => "other"
  distinct := by decide

def UpstreamStatus.fromStatus (status : Nat) : UpstreamStatus :=
  if status = 200 then .s200
  else if status = 404 then .s404
  else if status = 429 then .s429
  else if status = 503 then .s503
  else if 400 ≤ status ∧ status ≤ 499 then .other4xx
  else if 500 ≤ status ∧ status ≤ 599 then .other5xx
  else .other

/-- `usize::from(success)`, and the labels of the two cells. -/
instance : Labels Bool where
  all := [false, true]
  index := Bool.toNat
  index_all := by decide
  mem_all success := by cases success <;> decide
  asStr success := if success then "success" else "error"
  distinct := by decide

/-- The route templates. -/
def routes : List String := [
  "/sgx/certification/v3/platforms",
  "/sgx/certification/v3/platformcollateral",
  "/sgx/certification/v3/refresh",
  "/sgx/certification/v3/appraisalpolicy",
  "/sgx/certification/v3/pckcert",
  "/sgx/certification/v3/pckcrl",
  "/sgx/certification/v3/tcb",
  "/sgx/certification/v3/qe/identity",
  "/sgx/certification/v3/qve/identity",
  "/sgx/certification/v3/rootcacrl",
  "/sgx/certification/v3/crl",
  "/sgx/certification/v4/platforms",
  "/sgx/certification/v4/platformcollateral",
  "/sgx/certification/v4/refresh",
  "/sgx/certification/v4/appraisalpolicy",
  "/sgx/certification/v4/pckcert",
  "/sgx/certification/v4/pckcrl",
  "/sgx/certification/v4/tcb",
  "/sgx/certification/v4/qe/identity",
  "/sgx/certification/v4/qve/identity",
  "/sgx/certification/v4/rootcacrl",
  "/sgx/certification/v4/crl",
  "/tdx/certification/v4/tcb",
  "/tdx/certification/v4/qe/identity",
  "/healthz/live",
  "/healthz/ready",
  "/healthz/startup",
  "/vcek/\x7b*rest\x7d",
  "/vlek/\x7b*rest\x7d",
  "/v1/rim/\x7b*rest\x7d",
  "/ocsp",
  "/nvidia/nras/attest/gpu",
  "/metrics",
  "unmatched"]

def statusClasses : List String := ["2xx", "3xx", "4xx", "5xx", "other"]

/-- A place in a list of labels. -/
structure Place (labels : List String) where
  index : Fin labels.length
  deriving DecidableEq

instance (labels : List String) [Fact labels.Nodup] : Labels (Place labels) where
  all := (List.finRange labels.length).map Place.mk
  index place := place.index.val
  index_all := by simp [Function.comp_def]
  mem_all place := List.mem_map_of_mem (List.mem_finRange place.index)
  asStr place := labels.get place.index
  distinct := by
    rw [List.map_map]
    change ((List.finRange labels.length).map labels.get).Nodup
    rw [List.map_get_finRange]
    exact Fact.out

instance : Fact routes.Nodup := ⟨by decide +kernel⟩

instance : Fact statusClasses.Nodup := ⟨by decide +kernel⟩

abbrev Route := Place routes

abbrev StatusClass := Place statusClasses

def bucketNanos : List Nat := [50000, 100000, 250000, 500000, 1000000, 2500000, 5000000, 10000000,
  50000000, 100000000, 500000000, 1000000000, 5000000000, 30000000000, 60000000000]

def bucketLabels : List String := ["0.00005", "0.0001", "0.00025", "0.0005", "0.001", "0.0025",
  "0.005", "0.01", "0.05", "0.1", "0.5", "1", "5", "30", "60", "+Inf"]

instance : Fact bucketLabels.Nodup := ⟨by decide +kernel⟩

abbrev Bucket := Place bucketLabels

/-- An `AtomicU64`. -/
abbrev Counter := BitVec 64

/-- Disjoint buckets: one of them goes up at each observation. -/
structure Histogram where
  buckets : Table Bucket Counter
  sumNanos : Counter
  count : Counter

/-- `partition_point`: how many bounds the duration exceeds. -/
def partitionPoint (nanos : Nat) : Nat := (bucketNanos.takeWhile fun bound => bound < nanos).length

theorem partitionPoint_lt (nanos : Nat) : partitionPoint nanos < bucketLabels.length := by
  have hle : partitionPoint nanos ≤ bucketNanos.length := (List.takeWhile_prefix _).length_le
  exact Nat.lt_of_le_of_lt hle (by decide)

def bucketOf (nanos : Nat) : Bucket := ⟨⟨partitionPoint nanos, partitionPoint_lt nanos⟩⟩

def Histogram.observe (h : Histogram) (nanos : Nat) : Histogram where
  buckets := modify h.buckets (bucketOf nanos) (· + 1)
  sumNanos := h.sumNanos + BitVec.ofNat 64 (min nanos (2 ^ 64 - 1))
  count := h.count + 1

def Histogram.default : Histogram := ⟨fill Bucket 0, 0, 0⟩

/-- What is done with floating point numbers. -/
structure Floats where
  /-- `n as f64 / 1e9`, printed. -/
  seconds : Counter → List Char
  /-- `f64::from_bits(n)`, printed. -/
  fromBits : Counter → List Char
  /-- `Duration::as_secs_f64` and `to_bits`. -/
  toBits : Nat → Counter

end Pccs.Metrics

namespace Pccs

open Cells Metrics in
/-- The registry, with a cell for every series. -/
structure Metrics where
  processStart : Counter
  cache : Table (Kind × CacheResult) Counter
  store : Table Kind Histogram
  singleflight : Table Kind Histogram
  upstream : Table (Upstream × UpstreamStatus) Counter
  upstreamDuration : Table Upstream Histogram
  throttled : Table Upstream Counter
  permit : Histogram
  inflight : Counter
  refreshRuns : Table Bool Counter
  refreshItems : Table (Kind × Bool) Counter
  refreshLastSuccess : Counter
  refreshLastDuration : Counter
  http : Table (Route × StatusClass) Counter
  httpDuration : Table Route Histogram

end Pccs

namespace Pccs.Metrics

open Cells Exposition

def new (processStart : Counter) : Metrics where
  processStart := processStart
  cache := fill _ 0
  store := fill _ .default
  singleflight := fill _ .default
  upstream := fill _ 0
  upstreamDuration := fill _ .default
  throttled := fill _ 0
  permit := .default
  inflight := 0
  refreshRuns := fill _ 0
  refreshItems := fill _ 0
  refreshLastSuccess := 0
  refreshLastDuration := 0
  http := fill _ 0
  httpDuration := fill _ .default

/-- `route_index`: the last place is for what is not a template. -/
def routeIndex (route : String) : Route :=
  if h : route ∈ routes then ⟨⟨routes.idxOf route, List.idxOf_lt_length_of_mem h⟩⟩
  else ⟨⟨routes.length - 1, by decide⟩⟩

def statusClass (status : Nat) : StatusClass :=
  if 200 ≤ status ∧ status ≤ 299 then ⟨⟨0, by decide⟩⟩
  else if 300 ≤ status ∧ status ≤ 399 then ⟨⟨1, by decide⟩⟩
  else if 400 ≤ status ∧ status ≤ 499 then ⟨⟨2, by decide⟩⟩
  else if 500 ≤ status ∧ status ≤ 599 then ⟨⟨3, by decide⟩⟩
  else ⟨⟨4, by decide⟩⟩

section Recording

variable (m : Metrics)

def cacheLookup (kind : Kind) (result : CacheResult) : Metrics :=
  { m with cache := modify m.cache (kind, result) (· + 1) }

def storeRead (kind : Kind) (nanos : Nat) : Metrics :=
  { m with store := modify m.store kind (·.observe nanos) }

def singleflightWait (kind : Kind) (nanos : Nat) : Metrics :=
  { m with singleflight := modify m.singleflight kind (·.observe nanos) }

def upstreamAttempt (upstream : Upstream) (status : UpstreamStatus) (nanos : Nat) : Metrics :=
  { m with
    upstream := modify m.upstream (upstream, status) (· + 1)
    upstreamDuration := modify m.upstreamDuration upstream (·.observe nanos) }

def upstreamThrottled (upstream : Upstream) : Metrics :=
  { m with throttled := modify m.throttled upstream (· + 1) }

def permitWait (nanos : Nat) : Metrics := { m with permit := m.permit.observe nanos }

def inflightAdd : Metrics := { m with inflight := m.inflight + 1 }

/-- Saturating. -/
def inflightSub : Metrics :=
  { m with inflight := if m.inflight = 0 then 0 else m.inflight - 1 }

/-- The clock is read when the run was a success. -/
def refreshRun (floats : Floats) (success : Bool) (nanos : Nat) (now : Counter) : Metrics :=
  { m with
    refreshRuns := modify m.refreshRuns success (· + 1)
    refreshLastDuration := floats.toBits nanos
    refreshLastSuccess := if success then now else m.refreshLastSuccess }

def refreshItem (kind : Kind) (success : Bool) : Metrics :=
  { m with refreshItems := modify m.refreshItems (kind, success) (· + 1) }

def httpRequest (route : String) (status : Nat) (nanos : Nat) : Metrics :=
  { m with
    http := modify m.http (routeIndex route, statusClass status) (· + 1)
    httpDuration := modify m.httpDuration (routeIndex route) (·.observe nanos) }

end Recording

end Pccs.Metrics
