import Pccs.Cache
import Pccs.Urls

/-!
# The upstream retry loop

`PcsClient::send` repeats one request. Two budgets run side by side, one for all
attempts and one for the answers that ask to slow down, and a `Retry-After`
replaces the next wait only. Waits are in milliseconds.
-/
namespace Pccs.Retry

open Text Encoding Fallible PccsError

/-- A `u32` sum; `none` is the overflow. -/
def addU32 (a b : Nat) : Option Nat := if a + b < 2 ^ 32 then some (a + b) else none

/-- A `u64` shift to the left; `none` when the shift or a bit leaves the type. -/
def shlU64 (a n : Nat) : Option Nat :=
  if n < 64 ∧ a * 2 ^ n < 2 ^ 64 then some (a * 2 ^ n) else none

/-- `str::trim` on printable text. -/
def trim (text : List Char) : List Char :=
  ((text.dropWhile isAsciiWhitespace).reverse.dropWhile isAsciiWhitespace).reverse

def decimal (digits : List Char) : Nat := digits.foldl (fun n c => n * 10 + (c.toNat - 48)) 0

/-- `str::parse::<u64>`. -/
def parseU64 (text : List Char) : Option Nat :=
  let digits := if text.head? = some '+' then text.drop 1 else text
  if digits = [] ∨ digits.all Char.isDigit = false then none
  else if decimal digits < 2 ^ 64 then some (decimal digits) else none

def maxThrottledAttempts : Nat := 3

def maxRetryAfter : Nat := 30 * 1000

/-- `HeaderValue::to_str`. -/
def toStr (value : List UInt8) : Option (List Char) :=
  if value.all Cache.visibleAscii then some (utf8Lossy value) else none

/-- `Retry-After: <seconds>`, capped. -/
def retryAfter (headers : List (String × List UInt8)) : Option Nat := do
  let (_, value) ← headers.find? fun h => eqIgnoreAsciiCase h.1 "retry-after"
  let text ← toStr value
  let secs ← parseU64 (trim text)
  return min (secs * 1000) maxRetryAfter

/-- The attempts are counted by a `u32`. -/
structure PcsClient where
  maxAttempts : Nat
  apiKey : String
  fits : maxAttempts < 2 ^ 32

/-- What the HTTP library makes of a URL and of a body. -/
structure HttpLibrary where
  parses : String → Bool
  builds : String → List UInt8 → Bool

structure Request where
  uri : String
  /-- A body is posted as JSON. -/
  json : Option (List UInt8)
  subscriptionKey : Option String

/-- A header value holds no control character but the tab. -/
def headerValue (key : String) : Option String :=
  if (asBytes key).all fun b => (32 ≤ b && b ≠ 127) || b == 9 then some key else none

/-- The variables of the loop, and what it has done so far. -/
structure Loop where
  last : PccsError
  throttled : Nat
  delay : Option Nat
  throttledRetry : Bool
  waits : List Nat
  requests : List Request
  /-- How often the throttling counter of the metrics went up. -/
  counted : Nat

/-- An attempt ends in an error of the transport or in an answer. -/
abbrev Outcome := Except PccsError Cache.HttpResponse

inductive Next where
  | again (s : Loop)
  | finish (result : Outcome) (s : Loop)

/-- The wait before every attempt but the first. A carried delay is used up. -/
def Loop.sleep (s : Loop) (attempt : Nat) : Option Loop :=
  if 0 < attempt then do
    let backoff ← shlU64 50 (min attempt 5)
    return { s with delay := none, waits := s.waits ++ [s.delay.getD backoff] }
  else some s

/-- The request leaves; a retry after a throttled answer is counted here. -/
def Loop.start (s : Loop) (request : Request) : Loop :=
  { s with
    requests := s.requests ++ [request]
    counted := if s.throttledRetry then s.counted + 1 else s.counted
    throttledRetry := false }

/-- `status == 429 || status == 503`. -/
def throttles (r : Cache.HttpResponse) : Bool := r.status == 429 || r.status == 503

def Loop.throttle (client : PcsClient) (attempt : Nat) (r : Cache.HttpResponse) (s : Loop) :
    Option Next := do
  let throttled ← addU32 s.throttled 1
  let s := { s with throttled }
  if throttled < maxThrottledAttempts then
    let next ← addU32 attempt 1
    if next < client.maxAttempts then
      return .again { s with
        throttledRetry := true, delay := retryAfter r.headers, last := pcsAccessFailure }
    else return .finish (.ok r) s
  else return .finish (.ok r) s

def Loop.receive (client : PcsClient) (attempt : Nat) (outcome : Outcome) (s : Loop) :
    Option Next :=
  match outcome with
  | .error e => some (.again { s with last := e })
  | .ok r => if throttles r then s.throttle client attempt r else some (.finish (.ok r) s)

/-- One round of the loop. -/
def Loop.round (client : PcsClient) (lib : HttpLibrary) (request : Request) (attempt : Nat)
    (outcome : Outcome) (s : Loop) : Option Next := do
  let s ← s.sleep attempt
  if lib.parses request.uri = false then return .finish (.error internalError) s
  else if lib.builds request.uri (request.json.getD []) = false then
    return .finish (.error internalError) s
  else (s.start request).receive client attempt outcome

structure Run where
  result : Outcome
  waits : List Nat
  requests : List Request
  counted : Nat

def Loop.finish (s : Loop) (result : Outcome) : Run := ⟨result, s.waits, s.requests, s.counted⟩

/-- `for attempt in 0..self.max_attempts`; the outcomes are numbered by attempt. -/
def rounds (client : PcsClient) (lib : HttpLibrary) (request : Request) (outcomes : Nat → Outcome)
    (attempt : Nat) (s : Loop) : Option Run :=
  if attempt < client.maxAttempts then
    match s.round client lib request attempt (outcomes attempt) with
    | none => none
    | some (.finish result s) => some (s.finish result)
    | some (.again s) => rounds client lib request outcomes (attempt + 1) s
  else some (s.finish (.error s.last))
termination_by client.maxAttempts - attempt

def request (client : PcsClient) (url : String) (body : Option (List UInt8)) (attachKey : Bool) :
    Request :=
  ⟨url, body, if Urls.sendKey attachKey client.apiKey url then headerValue client.apiKey else none⟩

def start : Loop := ⟨pcsAccessFailure, 0, none, false, [], [], 0⟩

/-- `PcsClient::send`; `none` when a counter or the shift overflows. A permit is
refused by a closed semaphore only, and no code closes it. -/
def send (client : PcsClient) (lib : HttpLibrary) (url : String) (body : Option (List UInt8))
    (attachKey : Bool) (outcomes : Nat → Outcome) : Option Run :=
  match if attachKey then Cache.checkV3 url else .ok () with
  | .error e => some (start.finish (.error e))
  | .ok () => rounds client lib (request client url body attachKey) outcomes 0 start

section Law

variable {client : PcsClient} {lib : HttpLibrary} {req : Request} {outcomes : Nat → Outcome}

/-- An answer that asks to slow down. -/
def throttled : Outcome → Bool
  | .ok r => r.status == 429 || r.status == 503
  | .error _ => false

/-- An answer that is returned whatever the budgets say. -/
def settles : Outcome → Bool
  | .ok r => r.status != 429 && r.status != 503
  | .error _ => false

theorem throttles_iff {r : Cache.HttpResponse} :
    throttles r = true ↔ r.status = 429 ∨ r.status = 503 := by
  simp [throttles]

theorem not_throttles_iff {r : Cache.HttpResponse} :
    throttles r = false ↔ r.status ≠ 429 ∧ r.status ≠ 503 := by
  simp [throttles]

theorem throttled_ok (r : Cache.HttpResponse) : throttled (.ok r) = throttles r := rfl

theorem settles_ok (r : Cache.HttpResponse) : settles (.ok r) = !throttles r := by
  simp [settles, throttles, bne]

/-- The throttled ones of the first `n` outcomes. -/
def throttledBefore (outcomes : Nat → Outcome) (n : Nat) : Nat :=
  (List.range n).countP fun m => throttled (outcomes m)

/-- Attempt `n` is the last one if none before it was. -/
def Last (client : PcsClient) (outcomes : Nat → Outcome) (n : Nat) : Prop :=
  settles (outcomes n) = true ∨
    (throttled (outcomes n) = true ∧ maxThrottledAttempts ≤ throttledBefore outcomes (n + 1)) ∨
    n + 1 = client.maxAttempts

/-- The wait between an outcome and the next attempt. -/
def waitAfter (outcome : Outcome) (attempt : Nat) : Nat :=
  let backoff := 50 * 2 ^ min attempt 5
  match outcome with
  | .ok r => if throttles r then (retryAfter r.headers).getD backoff else backoff
  | .error _ => backoff

def waitsBefore (outcomes : Nat → Outcome) (n : Nat) : List Nat :=
  (List.range n).map fun m => waitAfter (outcomes m) (m + 1)

theorem throttledBefore_succ (n : Nat) : throttledBefore outcomes (n + 1) =
    throttledBefore outcomes n + if throttled (outcomes n) then 1 else 0 := by
  simp [throttledBefore, List.range_succ, List.countP_append, List.countP_cons]

theorem waitsBefore_succ (n : Nat) : waitsBefore outcomes (n + 1) =
    waitsBefore outcomes n ++ [waitAfter (outcomes n) (n + 1)] := by
  simp [waitsBefore, List.range_succ]

theorem retryAfter_le {headers : List (String × List UInt8)} {d : Nat}
    (h : retryAfter headers = some d) : d ≤ maxRetryAfter := by
  simp only [retryAfter, Option.bind_eq_bind, Option.bind_eq_some_iff, Option.pure_def,
    Option.some.injEq] at h
  obtain ⟨_, -, _, -, secs, -, rfl⟩ := h
  exact Nat.min_le_right _ _

theorem backoff_le (attempt : Nat) : 50 * 2 ^ min attempt 5 ≤ 1600 := by
  have := Nat.pow_le_pow_right (show 0 < 2 by decide) (Nat.min_le_right attempt 5)
  omega

theorem shlU64_backoff (attempt : Nat) :
    shlU64 50 (min attempt 5) = some (50 * 2 ^ min attempt 5) := by
  have := backoff_le attempt
  rw [shlU64, if_pos (by omega)]

theorem waitAfter_le (outcome : Outcome) (attempt : Nat) :
    waitAfter outcome attempt ≤ maxRetryAfter := by
  have hbackoff : 50 * 2 ^ min attempt 5 ≤ maxRetryAfter :=
    Nat.le_trans (backoff_le attempt) (by decide)
  cases outcome with
  | error e => exact hbackoff
  | ok r =>
    simp only [waitAfter]
    split
    · cases hd : retryAfter r.headers with
      | none => exact hbackoff
      | some d => exact retryAfter_le hd
    · exact hbackoff

/-- What the loop knows before attempt `n`. -/
structure Before (client : PcsClient) (req : Request) (outcomes : Nat → Outcome) (n : Nat)
    (s : Loop) : Prop where
  throttled : s.throttled = throttledBefore outcomes n
  budget : s.throttled < maxThrottledAttempts
  waits : s.waits = waitsBefore outcomes (n - 1)
  requests : s.requests = List.replicate n req
  counted : s.counted + (if s.throttledRetry then 1 else 0) = throttledBefore outcomes n
  fresh : n = 0 → s.delay = none
  delay : 0 < n → s.delay.getD (50 * 2 ^ min n 5) = waitAfter (outcomes (n - 1)) n
  last : 0 < n →
    (outcomes (n - 1) = .error s.last ∧ s.throttledRetry = false) ∨ n < client.maxAttempts

theorem before_start : Before client req outcomes 0 start where
  throttled := rfl
  budget := by decide
  waits := rfl
  requests := rfl
  counted := rfl
  fresh _ := rfl
  delay := by simp
  last := by simp

/-- What is left behind by a run whose last attempt was `n`. -/
structure Stopped (req : Request) (outcomes : Nat → Outcome) (n : Nat) (s : Loop) : Prop where
  waits : s.waits = waitsBefore outcomes n
  requests : s.requests = List.replicate (n + 1) req
  counted : s.counted = throttledBefore outcomes n

/-- Attempt `n` has left, and its outcome is not known yet. -/
structure Sent (req : Request) (outcomes : Nat → Outcome) (n : Nat) (s : Loop) : Prop
    extends Stopped req outcomes n s where
  throttled : s.throttled = throttledBefore outcomes n
  budget : s.throttled < maxThrottledAttempts
  delay : s.delay = none
  throttledRetry : s.throttledRetry = false

variable {n : Nat} {s : Loop}

theorem sleep_spec (h : Before client req outcomes n s) :
    s.sleep n = some { s with delay := none, waits := waitsBefore outcomes n } := by
  unfold Loop.sleep
  cases n with
  | zero =>
    have hwaits : s.waits = waitsBefore outcomes 0 := h.waits
    have hdelay : s.delay = none := h.fresh rfl
    rw [← hwaits, ← hdelay]
    rfl
  | succ n =>
    have hwait := h.delay (Nat.succ_pos n)
    rw [Nat.add_sub_cancel] at hwait
    simp [shlU64_backoff, hwait, h.waits, waitsBefore_succ]

theorem start_sent (h : Before client req outcomes n s) :
    Sent req outcomes n
      (({ s with delay := none, waits := waitsBefore outcomes n } : Loop).start req) where
  waits := rfl
  requests := by simp [Loop.start, h.requests, List.replicate_succ']
  counted := by
    rw [← h.counted]
    simp only [Loop.start]
    split
    · rfl
    · rfl
  throttled := h.throttled
  budget := h.budget
  delay := rfl
  throttledRetry := rfl

theorem addU32_eq {a b : Nat} (h : a + b < 2 ^ 32) : addU32 a b = some (a + b) := if_pos h

/-- After a failed attempt nothing changes but the error to report. -/
theorem receive_failed {e : PccsError} (h : Sent req outcomes n s) (ho : outcomes n = .error e) :
    Before client req outcomes (n + 1) { s with last := e } := by
  have hcount : throttledBefore outcomes (n + 1) = throttledBefore outcomes n := by
    rw [throttledBefore_succ, ho]
    rfl
  exact {
    throttled := by rw [hcount]; exact h.throttled
    budget := h.budget
    waits := h.waits
    requests := h.requests
    counted := by rw [hcount, h.throttledRetry]; exact h.counted
    fresh := by simp
    delay := by simp [ho, waitAfter, h.delay]
    last := by simp [ho, h.throttledRetry] }

/-- A throttled answer within both budgets carries its delay into the next round. -/
theorem receive_throttled {r : Cache.HttpResponse} (h : Sent req outcomes n s)
    (ho : outcomes n = .ok r) (hr : throttles r = true)
    (hbudget : s.throttled + 1 < maxThrottledAttempts) (hnext : n + 1 < client.maxAttempts) :
    Before client req outcomes (n + 1) { s with
      throttled := s.throttled + 1, throttledRetry := true, delay := retryAfter r.headers
      last := pcsAccessFailure } := by
  have hcount : throttledBefore outcomes (n + 1) = throttledBefore outcomes n + 1 := by
    rw [throttledBefore_succ, ho, throttled_ok, if_pos hr]
  exact {
    throttled := by rw [hcount, ← h.throttled]
    budget := hbudget
    waits := h.waits
    requests := h.requests
    counted := by rw [hcount, ← h.counted]; rfl
    fresh := by simp
    delay := by simp [ho, waitAfter, hr]
    last := fun _ => .inr hnext }

/-- A round is the last one, or leaves the loop ready for the next. -/
theorem round_spec (hparse : lib.parses req.uri = true)
    (hbuild : lib.builds req.uri (req.json.getD []) = true)
    (hlt : n < client.maxAttempts) (h : Before client req outcomes n s) :
    (∃ s', s.round client lib req n (outcomes n) = some (.again s') ∧
      Before client req outcomes (n + 1) s' ∧
      (Last client outcomes n → n + 1 = client.maxAttempts)) ∨
    (∃ s', s.round client lib req n (outcomes n) = some (.finish (outcomes n) s') ∧
      Last client outcomes n ∧ Stopped req outcomes n s') := by
  have hsent := start_sent h
  have hround : s.round client lib req n (outcomes n) =
      (({ s with delay := none, waits := waitsBefore outcomes n } : Loop).start req).receive
        client n (outcomes n) := by
    rw [Loop.round, sleep_spec h]
    simp [hparse, hbuild]
  rw [hround]
  generalize ({ s with delay := none, waits := waitsBefore outcomes n } : Loop).start req = s₁
    at hsent
  have hfits := client.fits
  cases ho : outcomes n with
  | error e =>
    refine .inl ⟨_, rfl, receive_failed hsent ho, ?_⟩
    rintro (hlast | ⟨hlast, -⟩ | hlast)
    · simp [ho, settles] at hlast
    · simp [ho, throttled] at hlast
    · exact hlast
  | ok r =>
    by_cases hr : throttles r = true
    · have hadd : addU32 s₁.throttled 1 = some (s₁.throttled + 1) :=
        addU32_eq (by have := hsent.budget; simp only [maxThrottledAttempts] at this; omega)
      have hadd' : addU32 n 1 = some (n + 1) := addU32_eq (by omega)
      have hcount : throttledBefore outcomes (n + 1) = s₁.throttled + 1 := by
        rw [throttledBefore_succ, ho, throttled_ok, if_pos hr, hsent.throttled]
      by_cases hbudget : s₁.throttled + 1 < maxThrottledAttempts
      · by_cases hnext : n + 1 < client.maxAttempts
        · refine .inl ⟨_, ?_, receive_throttled hsent ho hr hbudget hnext, ?_⟩
          · simp [Loop.receive, hr, Loop.throttle, hadd, hadd', hbudget, hnext]
          · rintro (hlast | ⟨-, hlast⟩ | hlast)
            · simp [ho, settles_ok, hr] at hlast
            · omega
            · exact hlast
        · refine .inr ⟨{ s₁ with throttled := s₁.throttled + 1 }, ?_, .inr (.inr (by omega)),
            hsent.toStopped.waits, hsent.toStopped.requests, hsent.toStopped.counted⟩
          simp [Loop.receive, hr, Loop.throttle, hadd, hadd', hnext]
      · refine .inr ⟨{ s₁ with throttled := s₁.throttled + 1 }, ?_,
          .inr (.inl ⟨by simp [ho, throttled_ok, hr], by omega⟩),
          hsent.toStopped.waits, hsent.toStopped.requests, hsent.toStopped.counted⟩
        simp [Loop.receive, hr, Loop.throttle, hadd, hbudget]
    · refine .inr ⟨s₁, by simp [Loop.receive, hr], .inl (by simp [ho, settles_ok, hr]),
        hsent.toStopped⟩

/-- A run and its last attempt. -/
structure Finished (client : PcsClient) (req : Request) (outcomes : Nat → Outcome) (n : Nat)
    (run : Run) : Prop where
  within : n < client.maxAttempts
  last : Last client outcomes n
  result : run.result = outcomes n
  waits : run.waits = waitsBefore outcomes n
  requests : run.requests = List.replicate (n + 1) req
  counted : run.counted = throttledBefore outcomes n

/-- By induction on the attempts left. -/
theorem rounds_spec (hparse : lib.parses req.uri = true)
    (hbuild : lib.builds req.uri (req.json.getD []) = true)
    (hle : n ≤ client.maxAttempts) (hpos : 0 < client.maxAttempts)
    (hfirst : ∀ m < n, Last client outcomes m → m + 1 = client.maxAttempts)
    (h : Before client req outcomes n s) :
    ∃ k run, rounds client lib req outcomes n s = some run ∧ Finished client req outcomes k run ∧
      ∀ m < k, ¬ Last client outcomes m := by
  induction hd : client.maxAttempts - n generalizing n s with
  | zero =>
    have hn : n = client.maxAttempts := by omega
    obtain ⟨hlast, hretry⟩ := (h.last (by omega)).resolve_right (by omega)
    have hcount : throttledBefore outcomes n = throttledBefore outcomes (n - 1) := by
      have hstep := @throttledBefore_succ outcomes (n - 1)
      rw [show n - 1 + 1 = n by omega, hlast] at hstep
      exact hstep
    refine ⟨n - 1, s.finish (.error s.last), ?_, ?_, fun m hm hm' => ?_⟩
    · rw [rounds, if_neg (by omega)]
    · exact {
        within := by omega
        last := .inr (.inr (by omega))
        result := hlast.symm
        waits := h.waits
        requests := by
          rw [show n - 1 + 1 = n by omega]
          exact h.requests
        counted := by
          rw [← hcount, ← h.counted, hretry]
          rfl }
    · have := hfirst m (by omega) hm'
      omega
  | succ d ih =>
    rw [rounds, if_pos (by omega)]
    rcases round_spec hparse hbuild (by omega) h with ⟨s', hs, hb, hlast⟩ | ⟨s', hs, hlast, hstop⟩
    · rw [hs]
      refine ih (by omega) (fun m hm => ?_) hb (by omega)
      rcases Nat.lt_succ_iff_lt_or_eq.mp hm with hm | rfl
      · exact hfirst m hm
      · exact hlast
    · rw [hs]
      refine ⟨n, s'.finish (outcomes n), rfl, ⟨by omega, hlast, rfl, hstop.waits, hstop.requests,
        hstop.counted⟩, fun m hm hm' => ?_⟩
      have := hfirst m hm hm'
      omega

/-- Every call is decided by its first last attempt. -/
theorem send_spec (hpos : 0 < client.maxAttempts) (lib : HttpLibrary) (url : String)
    (body : Option (List UInt8)) (attachKey : Bool) (outcomes : Nat → Outcome)
    (hv3 : attachKey = true → Cache.checkV3 url = .ok ()) (hparse : lib.parses url = true)
    (hbuild : lib.builds url (body.getD []) = true) :
    ∃ k run, send client lib url body attachKey outcomes = some run ∧
      Finished client (request client url body attachKey) outcomes k run ∧
      ∀ m < k, ¬ Last client outcomes m := by
  have hcheck : (if attachKey then Cache.checkV3 url else .ok ()) = .ok () := by
    cases attachKey with
    | false => rfl
    | true => exact hv3 rfl
  rw [send, hcheck]
  exact rounds_spec hparse hbuild (Nat.zero_le _) hpos (by simp) before_start

/-- Up to the last attempt at most two answers asked to slow down. -/
theorem throttledBefore_le {k : Nat} (h : ∀ m < k, ¬ Last client outcomes m) :
    throttledBefore outcomes k ≤ 2 := by
  induction k with
  | zero => simp [throttledBefore]
  | succ k ih =>
    have hk := ih fun m hm => h m (by omega)
    have hlast := h k (by omega)
    rw [throttledBefore_succ]
    split
    · rename_i ht
      have hno : ¬ maxThrottledAttempts ≤ throttledBefore outcomes (k + 1) :=
        fun hle => hlast (.inr (.inl ⟨ht, hle⟩))
      rw [throttledBefore_succ, if_pos ht] at hno
      simp only [maxThrottledAttempts] at hno
      omega
    · omega

theorem throttledBefore_mono {a b : Nat} (h : a ≤ b) :
    throttledBefore outcomes a ≤ throttledBefore outcomes b :=
  List.Sublist.countP_le (List.range_sublist.mpr h)

/-- Without an earlier end the attempt is made, and a last one ends the call. -/
theorem last_unique {k n : Nat} (hk : Last client outcomes k)
    (hfirst : ∀ m < k, ¬ Last client outcomes m) (hn : Last client outcomes n)
    (hnmax : n < client.maxAttempts) (hsettled : ∀ m < n, settles (outcomes m) = false)
    (hbudget : throttledBefore outcomes n < maxThrottledAttempts) : k = n := by
  by_contra hne
  rcases Nat.lt_or_gt_of_ne hne with hlt | hgt
  · rcases hk with hk | ⟨-, hk⟩ | hk
    · rw [hsettled k hlt] at hk
      cases hk
    · have hle : throttledBefore outcomes (k + 1) ≤ throttledBefore outcomes n :=
        throttledBefore_mono (by omega)
      omega
    · omega
  · exact hfirst n hgt hn

/-- The retry loop over every sequence of outcomes. -/
theorem send_retries (client : PcsClient) (hpos : 1 ≤ client.maxAttempts) (lib : HttpLibrary)
    (url : String) (body : Option (List UInt8)) (attachKey : Bool) (outcomes : Nat → Outcome)
    (hv3 : attachKey = true → Cache.checkV3 url = .ok ()) (hparse : lib.parses url = true)
    (hbuild : lib.builds url (body.getD []) = true) :
    ∃ run attempts, send client lib url body attachKey outcomes = some run ∧
      run.requests = List.replicate (attempts + 1) (request client url body attachKey) ∧
      attempts + 1 ≤ client.maxAttempts ∧
      throttledBefore outcomes attempts ≤ 2 ∧ run.counted = throttledBefore outcomes attempts ∧
      run.result = outcomes attempts ∧
      (∀ n r, n < client.maxAttempts → outcomes n = .ok r → r.status ≠ 429 ∧ r.status ≠ 503 →
        (∀ m < n, settles (outcomes m) = false) → throttledBefore outcomes n ≤ 2 →
        attempts = n ∧ run.result = .ok r) ∧
      (∀ n r, n < client.maxAttempts → outcomes n = .ok r → r.status = 429 ∨ r.status = 503 →
        (∀ m < n, settles (outcomes m) = false) → throttledBefore outcomes n ≤ 2 →
        (throttledBefore outcomes (n + 1) = 3 ∨ n + 1 = client.maxAttempts) →
        attempts = n ∧ run.result = .ok r) ∧
      (∀ e, run.result = .error e →
        outcomes attempts = .error e ∧ attempts + 1 = client.maxAttempts) ∧
      run.waits = waitsBefore outcomes attempts ∧ ∀ w ∈ run.waits, w ≤ 30 * 1000 := by
  obtain ⟨k, run, hsend, hrun, hfirst⟩ :=
    send_spec hpos lib url body attachKey outcomes hv3 hparse hbuild
  refine ⟨run, k, hsend, hrun.requests, hrun.within, throttledBefore_le hfirst, hrun.counted,
    hrun.result, ?_, ?_, ?_, hrun.waits, ?_⟩
  · intro n r hn ho hr hsettled hbudget
    have hlast : Last client outcomes n :=
      .inl (by simp [ho, settles_ok, not_throttles_iff.mpr hr])
    obtain rfl := last_unique hrun.last hfirst hlast hn hsettled
      (Nat.lt_succ_of_le hbudget)
    exact ⟨rfl, hrun.result.trans ho⟩
  · intro n r hn ho hr hsettled hbudget hend
    have hlast : Last client outcomes n := by
      rcases hend with hend | hend
      · exact .inr (.inl ⟨by rw [ho, throttled_ok, throttles_iff.mpr hr], hend.ge⟩)
      · exact .inr (.inr hend)
    obtain rfl := last_unique hrun.last hfirst hlast hn hsettled
      (Nat.lt_succ_of_le hbudget)
    exact ⟨rfl, hrun.result.trans ho⟩
  · intro e he
    have ho := hrun.result.symm.trans he
    refine ⟨ho, ?_⟩
    rcases hrun.last with hlast | ⟨hlast, -⟩ | hlast
    · simp [ho, settles] at hlast
    · simp [ho, throttled] at hlast
    · exact hlast
  · intro w hw
    rw [hrun.waits, waitsBefore, List.mem_map] at hw
    obtain ⟨m, -, rfl⟩ := hw
    exact waitAfter_le _ _

/-- An answer that asks to wait seven seconds, a lost connection, then the answer. -/
def threeOutcomes : Nat → Outcome
  | 0 => .ok ⟨503, [("Retry-After", [55])], []⟩
  | 1 => .error pcsAccessFailure
  | _ => .ok ⟨200, [], [123, 125]⟩

theorem send_retries_three :
    ∃ run, send ⟨3, "", by decide⟩ ⟨fun _ => true, fun _ _ => true⟩ "https://h/crl" none true
        threeOutcomes = some run ∧
      run.result = .ok ⟨200, [], [123, 125]⟩ ∧ run.requests.length = 3 ∧
      run.waits = [7000, 200] := by
  obtain ⟨run, attempts, hsend, hreq, -, -, -, -, hok, -, -, hwaits, -⟩ :=
    send_retries ⟨3, "", by decide⟩ (by decide) ⟨fun _ => true, fun _ _ => true⟩ "https://h/crl"
      none true threeOutcomes (fun _ => by decide) rfl rfl
  obtain ⟨rfl, hresult⟩ := hok 2 ⟨200, [], [123, 125]⟩ (by decide) rfl (by decide) (by decide)
    (by decide)
  exact ⟨run, hsend, hresult, by rw [hreq]; rfl, by rw [hwaits]; decide⟩

end Law

end Pccs.Retry
