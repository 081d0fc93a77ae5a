import Pccs.History
import Pccs.SingleFlight
import Pccs.Unproxied

/-!
# Where relayed answers come from

The proxied lookups answer from the store, from the memory of recent outcomes or
from the upstream. Whichever it is, the answer is one that the upstream gave: a
200 for the very resource that was asked for, another status for a resource with
the same key. The memory is part of the state here, the store outlives a restart
and the memory does not.
-/
namespace Pccs.Cache

open Text Encoding Json Fallible KeyValue PccsError Store Process Ocsp KeyGate SingleFlight Runs

/-- The store and the outcomes that are remembered. -/
structure Memory where
  db : Database
  memo : Memo (List UInt8) RecentOutcome

/-- A large body is not remembered. -/
def Memory.noted (s : Memory) (now : Nat) (key : List UInt8) (o : RecentOutcome) : Memory :=
  if tooLarge o then s
  else { s with memo := KeyGate.remember failureTtl recentOutcomesMax now s.memo key o }

/-- What an operation does to the store and to the memory. The monotonic clock is
arbitrary. -/
def performNoting (env : Env) (cfg : Config) (s : Memory) : (o : Op) → o.Res → Memory → Prop
  | .keyLock key, r, s' => ∃ now, s' = { s with memo := (recent failureTtl now s.memo key).2 } ∧
      r = match (recent failureTtl now s.memo key).1 with
        | some (.err e) => .error e
        | _ => .ok ()
  | .recentNon200 key, r, s' => ∃ now, s' = { s with memo := (recent failureTtl now s.memo key).2 } ∧
      r = match (recent failureTtl now s.memo key).1 with
        | some (.response resp) => some resp
        | _ => none
  | .remember key e, _, s' => ∃ now, s' = s.noted now key (.err e)
  | .rememberResponse key resp, _, s' => ∃ now, s' = s.noted now key (.response resp)
  | o, r, s' => perform env cfg s.db o r s'.db ∧ s'.memo = s.memo

/-- All operations of the cache, over the store and the memory. -/
@[reducible] def memorySystem (env : Env) (chrono : Chrono) (cfg : Config)
    (accepts : Request → Prop) : System Op Op.Res Memory Request :=
  (cacheSystem env chrono cfg accepts).over (performNoting env cfg)

/-- A restart keeps the store. -/
def Memory.restarted (s : Memory) : Memory := { s with memo := ∅ }

section Memory

variable {env : Env} {cfg : Config} {s s' : Memory}

theorem noted_db (s : Memory) (now : Nat) (key : List UInt8) (o : RecentOutcome) :
    (s.noted now key o).db = s.db := by
  unfold Memory.noted
  split <;> rfl

/-- The store is as without the memory. -/
theorem perform_of_noting (o : Op) (r : o.Res) (h : performNoting env cfg s o r s') :
    perform env cfg s.db o r s'.db := by
  cases o with
  | keyLock key =>
    obtain ⟨now, rfl, _⟩ := h
    rfl
  | recentNon200 key =>
    obtain ⟨now, rfl, _⟩ := h
    rfl
  | remember key e =>
    obtain ⟨now, rfl⟩ := h
    exact noted_db s now key _
  | rememberResponse key resp =>
    obtain ⟨now, rfl⟩ := h
    exact noted_db s now key _
  | _ => exact h.1

theorem recent_memo {now : Nat} {m : Memo (List UInt8) RecentOutcome} {key l : List UInt8}
    {e : Nat × RecentOutcome} (h : (recent failureTtl now m key).2[l]? = some e) :
    m[l]? = some e := by
  obtain hget | ⟨hget, _⟩ := @recent_get _ _ _ _ _ _ failureTtl now m key l
  · exact hget.symm.trans h
  · cases hget.symm.trans h

theorem noted_memo {now had : Nat} {key l : List UInt8} {o o' : RecentOutcome}
    (h : (s.noted now key o).memo[l]? = some (had, o')) :
    s.memo[l]? = some (had, o') ∨ (key = l ∧ o' = o) := by
  unfold Memory.noted at h
  split at h
  · exact .inl h
  by_cases hkey : key = l
  · subst hkey
    obtain hself | ⟨hself, _⟩ :=
      @remember_self _ _ _ _ _ _ failureTtl recentOutcomesMax now s.memo key o
    · cases hself.symm.trans h
      exact .inr ⟨rfl, rfl⟩
    · cases hself.symm.trans h
  · obtain hget | ⟨hget, _⟩ :=
      @remember_get _ _ _ _ _ _ failureTtl recentOutcomesMax now s.memo key l o hkey
    · exact .inl (hget.symm.trans h)
    · cases hget.symm.trans h

end Memory

section Sources

/-- An answer with its status, as it is relayed. -/
def relayed (r : HttpResponse) : AmdKdsResponse :=
  ⟨r.status, r.body, r.header "content-type", r.header "content-disposition", r.header "retry-after"⟩

variable (env : Env) (cfg : Config) (A : Event Op Op.Res → Prop)

/-- The upstream answered the URL so. -/
def AnswersUrl (kind : Fifo.Kind) (url : String) (http : HttpResponse) : Prop :=
  A ⟨.fetch (.url kind url), .ok http⟩ ∧ redirectOrInfo http.status = false

/-- The upstream answered a request with this cache key so. -/
def AnswersOcsp (cacheKey : String) (resp : AmdKdsResponse) : Prop :=
  ∃ body http, A ⟨.fetch (.ocsp body), .ok http⟩ ∧ parseRequest env body = .ok cacheKey ∧
    postNvidiaOcsp cfg.nvidiaOcspUri (some (asUpstream http)) = .ok resp

/-- A record that was saved for a URL that was answered, with the clock's time. -/
def SavedUrl (kind : Fifo.Kind) (rec : AmdKdsRecord) : Prop :=
  A ⟨.saveUrl kind rec, ()⟩ ∧ A ⟨.unixTime, rec.fetchedAt⟩ ∧ ∃ http,
    AnswersUrl A kind rec.url http ∧ http.status = 200 ∧
    responseOf rec = { relayed http with retryAfter := none }

def SavedOcsp (rec : NvidiaOcspRecord) : Prop :=
  ∃ resp, AnswersOcsp env cfg A rec.cacheKey resp ∧ served rec = { resp with retryAfter := none }

def RowSourced : Row → Prop
  | .amdKds rec => SavedUrl A .amdKds rec
  | .nvidiaRim rec => SavedUrl A .nvidiaRim rec
  | .nvidiaOcsp rec => SavedOcsp env cfg A rec
  | _ => True

/-- A status is remembered under the key of what was asked for. -/
inductive Remembered (key : List UInt8) (resp : AmdKdsResponse) : Prop
  | url (kind : Fifo.Kind) (hkind : kind ≠ .nvidiaOcsp) (url : String) (http : HttpResponse)
      (hkey : key = asBytes (urlKey env kind url)) (hanswer : AnswersUrl A kind url http)
      (hstatus : http.status ≠ 200) (hresp : resp = relayed http)
  | ocsp (cacheKey : String) (hkey : key = asBytes (storeKey cacheKey))
      (hanswer : AnswersOcsp env cfg A cacheKey resp)

/-- Whatever is stored or remembered of the proxied services, they have answered. -/
structure Sourced (s : Memory) : Prop where
  rows : Every (RowSourced env cfg A) s.db
  memo : ∀ (key : List UInt8) (had : Nat) (resp : AmdKdsResponse),
    s.memo[key]? = some (had, .response resp) → Remembered env cfg A key resp

variable (past : Past)

/-- How a lookup of a URL can be answered: with a 200 that it was given for the URL
itself, with the record of one that was saved within the lifetime before the
lookup read the clock, or with another status for its key. -/
inductive UrlServed (kind : Fifo.Kind) (url : String) (ttl : Nat) (resp : AmdKdsResponse) : Prop
  | fetched (http : HttpResponse) (hanswer : AnswersUrl A kind url http)
      (hstatus : http.status = 200) (hresp : resp = { relayed http with retryAfter := none })
      (hown : ⟨.fetch (.url kind url), .ok http⟩ ∈ past)
  | record (rec : AmdKdsRecord) (now : Nat) (hurl : rec.url = url) (hsaved : SavedUrl A kind rec)
      (hload : ⟨.loadUrl kind url, some rec⟩ ∈ past) (hresp : resp = responseOf rec)
      (hclock : ⟨.unixTime, now⟩ ∈ past) (hyoung : now - rec.fetchedAt < ttl)
  | status (url' : String) (http : HttpResponse)
      (hkey : env.hash128Hex (asBytes url') = env.hash128Hex (asBytes url))
      (hanswer : AnswersUrl A kind url' http) (hstatus : http.status ≠ 200)
      (hresp : resp = relayed http)

/-- An OCSP answer may lose its `Retry-After`. -/
def OcspServed (cacheKey : String) (resp : AmdKdsResponse) : Prop :=
  ∃ answer, AnswersOcsp env cfg A cacheKey answer ∧
    (resp = answer ∨ resp = { answer with retryAfter := none })

/-- What holds of the reply to a request. -/
def Relays : (q : Request) → q.Reply → Prop
  | .getAmdKds pathAndQuery, r => ∀ resp, r = .ok resp → ∃ path,
      Paths.canonicalizeAmdKds pathAndQuery = .ok path ∧ UrlServed env A past .amdKds
        (Paths.joinHostPath cfg.amdKdsUri path) cfg.amdKdsCacheTtlSecs resp
  | .getNvidiaRim pathAndQuery, r => ∀ resp, r = .ok resp → ∃ path,
      Paths.canonicalizeNvidiaRim pathAndQuery = .ok path ∧ UrlServed env A past .nvidiaRim
        (Paths.joinHostPath cfg.nvidiaRimUri path) cfg.nvidiaRimCacheTtlSecs resp
  | .getNvidiaOcsp body, r => ∀ resp, r = .ok resp → ∃ cacheKey,
      parseRequest env body = .ok cacheKey ∧ OcspServed env cfg A cacheKey resp
  | _, _ => True

end Sources

section Keys

variable {env : Env}

theorem kind_apart_kind {kind kind' : Fifo.Kind} (h : kind ≠ kind') :
    Keys.Apart kind.name kind'.name := by
  cases kind <;> cases kind' <;> first | exact absurd rfl h | decide

/-- A key names its kind. -/
theorem urlKey_inj {kind kind' : Fifo.Kind} {url url' : String}
    (h : asBytes (urlKey env kind url) = asBytes (urlKey env kind' url')) :
    kind = kind' ∧ env.hash128Hex (asBytes url) = env.hash128Hex (asBytes url') := by
  have happend : asBytes kind.name ++ asBytes (env.hash128Hex (asBytes url)) =
      asBytes kind'.name ++ asBytes (env.hash128Hex (asBytes url')) := by
    simpa only [urlKey, asBytes_append] using h
  by_cases hkind : kind = kind'
  · subst hkind
    exact ⟨rfl, asBytes_inj.mp (List.append_cancel_left happend)⟩
  · have hapart := kind_apart_kind hkind
    exact absurd happend (Keys.append_ne hapart.1 hapart.2 _ _)

theorem urlKey_ne_storeKey {kind : Fifo.Kind} (hkind : kind ≠ .nvidiaOcsp) (url cacheKey : String) :
    asBytes (urlKey env kind url) ≠ asBytes (storeKey cacheKey) := by
  have hapart := kind_apart_kind hkind
  rw [urlKey, storeKey, asBytes_append, asBytes_append]
  exact Keys.append_ne hapart.1 hapart.2 _ _

theorem storeKey_inj {cacheKey cacheKey' : String}
    (h : asBytes (storeKey cacheKey) = asBytes (storeKey cacheKey')) : cacheKey = cacheKey' := by
  simp only [storeKey, asBytes_append] at h
  exact asBytes_inj.mp (List.append_cancel_left h)

end Keys

section Steps

variable {env : Env} {cfg : Config} {A : Event Op Op.Res → Prop} {s s' : Memory} {past : Past}

theorem rowSourced_of_unproxied {row : Row} (h : row.proxied = false) :
    RowSourced env cfg A row := by
  cases row <;> trivial

/-- The memory holds nothing new, except perhaps an error. -/
theorem sourced_memo (hs : Sourced env cfg A s) (hrows : Every (RowSourced env cfg A) s'.db)
    (hmemo : ∀ (key : List UInt8) (had : Nat) (resp : AmdKdsResponse),
      s'.memo[key]? = some (had, .response resp) → s.memo[key]? = some (had, .response resp)) :
    Sourced env cfg A s' :=
  ⟨hrows, fun key had resp h => hs.memo key had resp (hmemo key had resp h)⟩

/-- What the other requests do is harmless. -/
theorem sourced_unproxied {o : Op} {r : o.Res} (ho : o.Unproxied) (hs : Sourced env cfg A s)
    (h : performNoting env cfg s o r s') : Sourced env cfg A s' := by
  have hrows : Every (RowSourced env cfg A) s'.db :=
    (unproxied_perform ho (perform_of_noting o r h)).every
      (fun row => rowSourced_of_unproxied) hs.rows
  refine sourced_memo hs hrows fun key had resp hget => ?_
  cases o with
  | rememberResponse key resp => exact ho.elim
  | keyLock l =>
    obtain ⟨now, rfl, _⟩ := h
    exact recent_memo hget
  | recentNon200 l =>
    obtain ⟨now, rfl, _⟩ := h
    exact recent_memo hget
  | remember l e =>
    obtain ⟨now, rfl⟩ := h
    obtain hold | ⟨_, hnew⟩ := noted_memo hget
    · exact hold
    · cases hnew
  | _ =>
    obtain ⟨_, hsame⟩ := h
    rw [hsame] at hget
    exact hget

/-- A bounded write puts its record and rows of the index. -/
theorem putBounded_every {P : Row → Prop} (hP : ∀ row : Row, row.proxied = false → P row)
    {f : Fifo.FifoStore} {micros : Nat} {kind : Fifo.Kind} {entry : List UInt8} {val : Row}
    (hf : Every P f.db) (hval : P val) : Every P (Fifo.putBounded f micros kind entry val).db := by
  refine hf.write fun k row hput => ?_
  simp only [List.mem_append] at hput
  obtain ((hput | hput) | hput) | hput := hput
  · obtain ⟨t, _, he⟩ := List.mem_map.mp hput
    cases he
  · simp only [List.mem_cons, Write.put.injEq, List.not_mem_nil, or_false] at hput
    obtain ⟨_, rfl⟩ | ⟨_, rfl⟩ | ⟨_, rfl⟩ := hput
    · exact hval
    · exact hP _ rfl
    · exact hP _ rfl
  · obtain ⟨x, _, he⟩ := List.mem_flatMap.mp hput
    simp at he
  · cases List.mem_singleton.mp hput
    exact hP _ rfl

theorem sourced_saveUrl {kind : Fifo.Kind} {rec : AmdKdsRecord} {u : Unit}
    (hrec : SavedUrl A kind rec) (hs : Sourced env cfg A s)
    (h : performNoting env cfg s (.saveUrl kind rec) u s') : Sourced env cfg A s' := by
  obtain ⟨⟨last, max, micros, hdb⟩, hmemo⟩ := h
  refine sourced_memo hs ?_ fun key had resp hget => by rwa [hmemo] at hget
  rw [hdb]
  have hrows : Every (RowSourced env cfg A) s.db := hs.rows
  cases kind with
  | amdKds => exact putBounded_every (fun _ => rowSourced_of_unproxied) hrows hrec
  | nvidiaRim => exact putBounded_every (fun _ => rowSourced_of_unproxied) hrows hrec
  | nvidiaOcsp => exact hrows

theorem sourced_putNvidiaOcsp {rec : NvidiaOcspRecord} {u : Unit}
    (hrec : SavedOcsp env cfg A rec) (hs : Sourced env cfg A s)
    (h : performNoting env cfg s (.putNvidiaOcsp rec) u s') : Sourced env cfg A s' := by
  obtain ⟨⟨last, max, micros, hdb⟩, hmemo⟩ := h
  refine sourced_memo hs ?_ fun key had resp hget => by rwa [hmemo] at hget
  rw [hdb]
  exact putBounded_every (fun _ => rowSourced_of_unproxied) hs.rows hrec

theorem sourced_rememberResponse {key : List UInt8} {resp : AmdKdsResponse} {u : Unit}
    (hresp : Remembered env cfg A key resp) (hs : Sourced env cfg A s)
    (h : performNoting env cfg s (.rememberResponse key resp) u s') : Sourced env cfg A s' := by
  obtain ⟨now, rfl⟩ := h
  refine ⟨by rw [noted_db]; exact hs.rows, fun l had resp' hget => ?_⟩
  obtain hold | ⟨rfl, hnew⟩ := noted_memo hget
  · exact hs.memo l had resp' hold
  · cases hnew
    exact hresp

end Steps

section Requests

variable {env : Env} {cfg : Config} {A : Event Op Op.Res → Prop} {past : Past}

/-- Only admissible exchanges, and whatever is kept of them is theirs. -/
def sourcing (env : Env) (cfg : Config) (A : Event Op Op.Res → Prop) : Keeps Op Op.Res Memory where
  perform s o r s' := performNoting env cfg s o r s' ∧ A ⟨o, r⟩
  inv := Sourced env cfg A
  guar _ _ _ _ _ := True

theorem safe_others {α : Type} {p : Action α} (hp : Only Op.Unproxied p) :
    Safe (sourcing env cfg A) (fun _ _ => True) p past :=
  safe_of_only (K := sourcing env cfg A)
    (fun _ _ _ _ _ ho hs h => ⟨sourced_unproxied ho hs (And.left h), trivial⟩) hp past

/-- An operation that others may do as well: what it returned it may return. -/
theorem safe_harmless {o : Op} (ho : o.Unproxied) :
    Safe (sourcing env cfg A) (fun past' r => past' = ⟨o, r⟩ :: past ∧ A ⟨o, r⟩ ∧
      ∃ s s', Sourced env cfg A s ∧ performNoting env cfg s o r s') (act o) past :=
  safe_call fun s _ s' hs hr => ⟨sourced_unproxied ho hs hr.1, trivial, rfl, hr.2, s, s', hs, hr.1⟩

/-- An operation that writes something of its own. -/
theorem safe_sourced {o : Op} (h : ∀ s r s', A ⟨o, r⟩ → Sourced env cfg A s →
    performNoting env cfg s o r s' → Sourced env cfg A s') :
    Safe (sourcing env cfg A) (fun _ _ => True) (act o) past :=
  safe_call fun s r s' hs hr => ⟨h s r s' hr.2 hs hr.1, trivial, trivial⟩

/-- Remember a failure, keep a success. -/
theorem safe_noted {α : Type} {key : List UInt8} {p : Attempt α} {post : Past → α → Prop}
    (hp : Safe (sourcing env cfg A) (fun past' r => ∀ a, r = .ok a → post past' a) p past) :
    Safe (sourcing env cfg A) (fun past' r => ∀ a, r = .ok a → post past' a) (note key p) past := by
  refine safe_bind hp fun past₁ r _ hr => ?_
  cases r with
  | ok a => exact hr
  | error e =>
    refine safe_bind (safe_harmless trivial) fun _ _ _ _ => ?_
    intro a h
    cases h

/-- A record that was found is of its URL, and was saved from an answer. -/
theorem loadUrl_saved {s : Memory} (hs : Sourced env cfg A s) {kind : Fifo.Kind} {url : String}
    {rec : AmdKdsRecord} (h : loadUrl env s.db kind url = some rec) :
    rec.url = url ∧ SavedUrl A kind rec := by
  cases kind with
  | amdKds =>
    simp only [loadUrl, Fifo.getAmdKds, Option.bind_eq_bind, Option.bind_eq_some_iff] at h
    obtain ⟨rec', ⟨row, hrow, hrec⟩, h⟩ := h
    split at h
    · cases h
    · rename_i hurl
      cases h
      have hsourced := hs.rows _ row hrow
      cases row <;> cases hrec
      exact ⟨not_not.mp hurl, hsourced⟩
  | nvidiaRim =>
    simp only [loadUrl, Fifo.getNvidiaRim, Option.bind_eq_bind, Option.bind_eq_some_iff] at h
    obtain ⟨rec', ⟨row, hrow, hrec⟩, h⟩ := h
    split at h
    · cases h
    · rename_i hurl
      cases h
      have hsourced := hs.rows _ row hrow
      cases row <;> cases hrec
      exact ⟨not_not.mp hurl, hsourced⟩
  | nvidiaOcsp => cases h

variable {kind : Fifo.Kind} {url : String} {ttl : Nat}

/-- The replies to a lookup of a URL. -/
abbrev ServesUrl (env : Env) (A : Event Op Op.Res → Prop) (kind : Fifo.Kind) (url : String)
    (ttl : Nat) (past : Past) (r : Except PccsError AmdKdsResponse) : Prop :=
  ∀ resp, r = .ok resp → UrlServed env A past kind url ttl resp

theorem safe_refused (past : Past) (e : PccsError) :
    Safe (sourcing env cfg A) (ServesUrl env A kind url ttl) (.ret (.error e)) past := nofun

/-- An answer is an access failure, relayed and remembered, or relayed and saved. -/
theorem safe_settleUrl (hkind : kind ≠ .nvidiaOcsp) {http : HttpResponse} (e : PccsError)
    (hA : A ⟨.fetch (.url kind url), .ok http⟩) (hpast : ⟨.fetch (.url kind url), .ok http⟩ ∈ past) :
    Safe (sourcing env cfg A) (ServesUrl env A kind url ttl)
      (settleUrl kind url (asBytes (urlKey env kind url)) e http) past := by
  unfold settleUrl
  simp only
  split
  · exact safe_noted (p := .ret (.error e)) nofun
  rename_i hredirect
  have hanswer : AnswersUrl A kind url http := ⟨hA, by simpa using hredirect⟩
  split
  · rename_i hstatus
    have hremembered : Remembered env cfg A (asBytes (urlKey env kind url)) (relayed http) :=
      .url kind hkind url http rfl hanswer hstatus rfl
    refine safe_bind (safe_sourced fun s r s' _ => sourced_rememberResponse hremembered)
      fun past₁ _ _ _ => ?_
    intro resp h
    cases h
    exact .status url http rfl hanswer hstatus rfl
  · rename_i hstatus
    have hok : http.status = 200 := not_not.mp hstatus
    refine safe_bind (safe_harmless trivial) fun past₁ fetchedAt hsub₁ hclock => ?_
    have hdocument : responseOf ⟨url, http.body, http.header "content-type",
        http.header "content-disposition", fetchedAt⟩ = { relayed http with retryAfter := none } := by
      simp only [responseOf, relayed, hok]
    have hsaved : ∀ rec : AmdKdsRecord, rec = ⟨url, http.body, http.header "content-type",
        http.header "content-disposition", fetchedAt⟩ → A ⟨.saveUrl kind rec, ()⟩ →
        SavedUrl A kind rec := by
      rintro _ rfl hsave
      exact ⟨hsave, hclock.2.1, http, hanswer, hok, hdocument⟩
    refine safe_bind (safe_sourced fun s r s' hsave => sourced_saveUrl (hsaved _ rfl hsave))
      fun past₂ _ hsub₂ _ => ?_
    intro resp h
    cases h
    exact .fetched http hanswer hok hdocument ((hsub₁.trans hsub₂).subset hpast)

theorem safe_fetchUrl (hkind : kind ≠ .nvidiaOcsp) (e : PccsError) :
    Safe (sourcing env cfg A) (ServesUrl env A kind url ttl) (fetchUrl env kind url e) past := by
  have hfetch : Safe (sourcing env cfg A) (fun past' r => ∀ http, r = .ok http →
      A ⟨.fetch (.url kind url), .ok http⟩ ∧ ⟨.fetch (.url kind url), .ok http⟩ ∈ past')
      ((act (.fetch (.url kind url))).bind fun r => .ret (r.mapError fun _ => e)) past := by
    refine safe_bind (safe_harmless trivial) fun past₁ r _ hr => ?_
    intro http h
    obtain rfl : r = .ok http := mapError_eq_ok.mp h
    exact ⟨hr.2.1, by rw [hr.1]; exact List.mem_cons_self⟩
  refine safe_andThen (safe_noted hfetch) (fun past₁ http _ hhttp => ?_) fun _ _ _ _ => nofun
  obtain ⟨hA, hmem⟩ := hhttp http rfl
  exact safe_settleUrl hkind e hA hmem

/-- What the lookup of a record has found out. -/
structure Found (A : Event Op Op.Res → Prop) (past : Past) (kind : Fifo.Kind) (url : String)
    (rec : AmdKdsRecord) : Prop where
  ofUrl : rec.url = url
  saved : SavedUrl A kind rec
  load : ⟨.loadUrl kind url, some rec⟩ ∈ past

/-- A record within its lifetime serves, after a look at the clock. -/
theorem serves_found {now : Nat} {rec : AmdKdsRecord} (hfound : Found A past kind url rec)
    (hnow : ⟨.unixTime, now⟩ ∈ past) (hfresh : now - rec.fetchedAt < ttl) :
    UrlServed env A past kind url ttl (responseOf rec) :=
  .record rec now hfound.ofUrl hfound.saved hfound.load rfl hnow hfresh

/-- The clock and the record of a URL. -/
theorem safe_lookup {α : Type} {f : Nat → Option AmdKdsRecord → Action α}
    {post : Past → α → Prop}
    (hf : ∀ past' now found, ⟨.unixTime, now⟩ ∈ past' →
      (∀ rec, found = some rec → Found A past' kind url rec) →
      Safe (sourcing env cfg A) post (f now found) past') :
    Safe (sourcing env cfg A) post
      ((act .unixTime).bind fun now => (act (.loadUrl kind url)).bind fun found => f now found)
      past := by
  refine safe_bind (safe_harmless trivial) fun past₁ now _ hclock => ?_
  refine safe_bind (safe_harmless trivial) fun past₂ found hsub₂ hfound => ?_
  refine hf past₂ now found (hsub₂.subset (by rw [hclock.1]; exact List.mem_cons_self)) ?_
  obtain ⟨hpast, _, s, s', hs, hload, _⟩ := hfound
  intro rec hrec
  rw [hrec] at hload hpast
  obtain ⟨hurl, hsaved⟩ := loadUrl_saved hs hload.1.symm
  exact ⟨hurl, hsaved, hpast ▸ List.mem_cons_self⟩

/-- A status that is replayed is remembered. -/
theorem recentNon200_memo {now : Nat} {m : Memo (List UInt8) RecentOutcome} {key : List UInt8}
    {resp : AmdKdsResponse}
    (h : some resp = match (recent failureTtl now m key).1 with
      | some (.response resp) => some resp
      | _ => none) : ∃ had, m[key]? = some (had, .response resp) := by
  split at h
  · rename_i hrecent
    cases h
    obtain ⟨_, had, hget, _⟩ := recent_some hrecent
    exact ⟨had, hget⟩
  · cases h

/-- A remembered status is of a URL with the same key. -/
theorem safe_recentUrl (hkind : kind ≠ .nvidiaOcsp) :
    Safe (sourcing env cfg A) (fun past' found => ∀ resp, found = some resp →
        UrlServed env A past' kind url ttl resp)
      (act (.recentNon200 (asBytes (urlKey env kind url)))) past := by
  refine safe_mono (safe_harmless trivial) fun past₁ found _ hfound resp hresp => ?_
  obtain ⟨_, _, s, s', hs, now, _, hr⟩ := hfound
  obtain ⟨had, hget⟩ := recentNon200_memo (hresp ▸ hr)
  cases hs.memo _ had resp hget with
  | url kind' hkind' url' http hkey hanswer hstatus hresp =>
    obtain ⟨rfl, hhash⟩ := urlKey_inj hkey
    exact .status url' http hhash.symm hanswer hstatus hresp
  | ocsp cacheKey hkey hanswer => exact absurd hkey (urlKey_ne_storeKey hkind url cacheKey)

/-- Whatever way a lookup takes, its answer is one the upstream gave. -/
theorem safe_getCachedUrl (hkind : kind ≠ .nvidiaOcsp) (e : PccsError) :
    Safe (sourcing env cfg A) (ServesUrl env A kind url ttl)
      (getCachedUrl env cfg kind url ttl e) past := by
  unfold getCachedUrl
  lift_lets
  intro key fresh locked
  have hlocked : ∀ past', Safe (sourcing env cfg A) (ServesUrl env A kind url ttl) locked past' := by
    intro past'
    unfold locked
    split
    · exact safe_refused past' _
    refine safe_andThen (safe_harmless trivial) (fun past₁ _ _ _ => ?_) fun _ _ _ _ => nofun
    refine safe_bind (@safe_recentUrl env cfg A past₁ kind url ttl hkind) fun past₂ found _ hfound => ?_
    cases found with
    | some resp =>
      intro resp' h
      cases h
      exact hfound _ rfl
    | none =>
      refine safe_lookup fun past₃ now found hnow hfound => ?_
      cases found with
      | none => exact safe_fetchUrl hkind e
      | some rec =>
        simp only
        split
        · rename_i hfresh
          intro resp h
          cases h
          exact serves_found (hfound rec rfl) hnow (of_decide_eq_true hfresh)
        · exact safe_bind (safe_harmless trivial) fun _ _ _ _ => safe_fetchUrl hkind e
  refine safe_lookup fun past₁ now found hnow hfound => ?_
  cases found with
  | none => exact hlocked past₁
  | some rec =>
    simp only
    split
    · rename_i hfresh
      intro resp h
      cases h
      exact serves_found (hfound rec rfl) hnow (of_decide_eq_true hfresh)
    split
    · exact safe_bind (safe_harmless trivial) fun past₂ _ _ _ => hlocked past₂
    · exact hlocked past₁

section Ocsp

variable {cacheKey : String} {body : List UInt8}

/-- What the responder answers, with its status and without a disposition. -/
theorem postNvidiaOcsp_eq_ok {uri : String} {http : HttpResponse} {resp : AmdKdsResponse}
    (h : postNvidiaOcsp uri (some (asUpstream http)) = .ok resp) :
    resp.contentDisposition = none := by
  obtain ⟨_, _, h⟩ := bind_eq_ok.mp h
  obtain ⟨answer, _, h⟩ := bind_eq_ok.mp h
  obtain ⟨_, _, h⟩ := bind_eq_ok.mp h
  cases pure_eq_ok.mp h
  rfl

theorem postNvidiaOcsp_none {uri : String} {resp : AmdKdsResponse} :
    postNvidiaOcsp uri none ≠ .ok resp := by
  intro h
  obtain ⟨_, _, h⟩ := bind_eq_ok.mp h
  obtain ⟨answer, hrequire, _⟩ := bind_eq_ok.mp h
  cases require_eq_ok.mp hrequire

theorem safe_postOcsp (hparse : parseRequest env body = .ok cacheKey) :
    Safe (sourcing env cfg A)
      (fun _ r => ∀ resp, r = .ok resp → AnswersOcsp env cfg A cacheKey resp)
      (postOcsp cfg body) past := by
  unfold postOcsp
  split
  · intro resp h
    cases h
  refine safe_bind (safe_harmless trivial) fun past₁ r _ hr => ?_
  intro resp h
  cases r with
  | error e => exact absurd h postNvidiaOcsp_none
  | ok http => exact ⟨body, http, hr.2.1, hparse, h⟩

/-- The replies to an OCSP request. -/
abbrev ServesOcsp (env : Env) (cfg : Config) (A : Event Op Op.Res → Prop) (cacheKey : String)
    (_ : Past) (r : Except PccsError AmdKdsResponse) : Prop :=
  ∀ resp, r = .ok resp → OcspServed env cfg A cacheKey resp

theorem safe_settleOcsp (chrono : Chrono) {resp : AmdKdsResponse}
    (hanswer : AnswersOcsp env cfg A cacheKey resp) :
    Safe (sourcing env cfg A) (ServesOcsp env cfg A cacheKey)
      (settleOcsp chrono cfg cacheKey (asBytes (storeKey cacheKey)) resp) past := by
  have hrelay : ∀ past', Safe (sourcing env cfg A) (ServesOcsp env cfg A cacheKey)
      (.ret (.ok resp)) past' := by
    intro past' resp' h
    cases h
    exact ⟨_, hanswer, .inl rfl⟩
  unfold settleOcsp
  split
  · exact safe_bind (safe_sourced fun s r s' _ =>
        sourced_rememberResponse (.ocsp cacheKey rfl hanswer))
      fun past₁ _ _ _ => hrelay past₁
  rename_i hstatus
  refine safe_bind (safe_harmless trivial) fun past₁ now _ _ => ?_
  split
  · intro resp' h
    cases h
  rename_i now' _
  split
  · exact hrelay past₁
  rename_i expiresAt _
  refine safe_bind (safe_harmless trivial) fun past₂ fetchedAt _ _ => ?_
  have hdisposition : resp.contentDisposition = none := by
    obtain ⟨_, http, _, _, hpost⟩ := hanswer
    exact postNvidiaOcsp_eq_ok hpost
  have hsaved : SavedOcsp env cfg A ⟨cacheKey, resp.body, resp.contentType, fetchedAt, expiresAt⟩ := by
    refine ⟨resp, hanswer, ?_⟩
    rw [served, ← not_not.mp hstatus, ← hdisposition]
  refine safe_bind (safe_sourced fun s r s' _ => sourced_putNvidiaOcsp hsaved) fun past₃ _ _ _ => ?_
  intro resp' h
  cases h
  exact ⟨resp, hanswer, .inr rfl⟩

theorem getNvidiaOcsp_saved {s : Memory} (hs : Sourced env cfg A s) {rec : NvidiaOcspRecord}
    (h : Ocsp.getNvidiaOcsp ⟨s.db, 0, 0⟩ cacheKey = some rec) :
    OcspServed env cfg A cacheKey (served rec) := by
  unfold Ocsp.getNvidiaOcsp at h
  split at h
  · rename_i found hrow
    split at h
    · rename_i hkey
      cases h
      obtain ⟨resp, hanswer, hserved⟩ := hs.rows _ _ hrow
      rw [hkey] at hanswer
      exact ⟨resp, hanswer, .inr hserved⟩
    · cases h
  · cases h

theorem safe_readOcsp : Safe (sourcing env cfg A) (fun _ found => ∀ rec, found = some rec →
      OcspServed env cfg A cacheKey (served rec)) (act (.getNvidiaOcsp cacheKey)) past := by
  refine safe_mono (safe_harmless trivial) fun past₁ found _ hfound rec hrec => ?_
  obtain ⟨_, _, s, s', hs, hread, _⟩ := hfound
  rw [hrec] at hread
  exact getNvidiaOcsp_saved hs hread.1.symm

theorem safe_recentOcsp : Safe (sourcing env cfg A) (fun _ found => ∀ resp, found = some resp →
      OcspServed env cfg A cacheKey resp)
      (act (.recentNon200 (asBytes (storeKey cacheKey)))) past := by
  refine safe_mono (safe_harmless trivial) fun past₁ found _ hfound resp hresp => ?_
  obtain ⟨_, _, s, s', hs, now, _, hr⟩ := hfound
  obtain ⟨had, hget⟩ := recentNon200_memo (hresp ▸ hr)
  cases hs.memo _ had resp hget with
  | url kind hkind url http hkey => exact absurd hkey.symm (urlKey_ne_storeKey hkind url cacheKey)
  | ocsp cacheKey' hkey hanswer =>
    rw [storeKey_inj hkey]
    exact ⟨resp, hanswer, .inl rfl⟩

theorem safe_getNvidiaOcspRequest (chrono : Chrono) (body : List UInt8) :
    Safe (sourcing env cfg A) (fun past' r => Relays env cfg A past' (.getNvidiaOcsp body) r)
      (getNvidiaOcspRequest env chrono cfg body) past := by
  have hparsed : Safe (sourcing env cfg A) (fun _ r => r = parseRequest env body)
      (settled (parseRequest env body)) past := rfl
  refine safe_andThen hparsed (fun past₀ cacheKey _ hparse => ?_) fun _ _ _ _ => nofun
  have hserves : ∀ {p : Attempt AmdKdsResponse},
      Safe (sourcing env cfg A) (ServesOcsp env cfg A cacheKey) p past₀ →
      Safe (sourcing env cfg A) (fun past' r => Relays env cfg A past' (.getNvidiaOcsp body) r)
        p past₀ :=
    fun hp => safe_mono hp fun _ _ _ hr resp hresp => ⟨cacheKey, hparse.symm, hr resp hresp⟩
  refine hserves ?_
  lift_lets
  intro key locked
  have hposted : ∀ past', Safe (sourcing env cfg A)
      (fun _ r => ∀ resp, r = .ok resp → AnswersOcsp env cfg A cacheKey resp)
      (note (asBytes (storeKey cacheKey)) (postOcsp cfg body)) past' :=
    fun past' => safe_noted (safe_postOcsp hparse.symm)
  have hfetch : ∀ past', Safe (sourcing env cfg A) (ServesOcsp env cfg A cacheKey)
      (fetchOcsp chrono cfg cacheKey body) past' := fun past' =>
    safe_andThen (hposted past') (fun _ resp _ hanswer => safe_settleOcsp chrono (hanswer resp rfl))
      fun _ _ _ _ => nofun
  have hlocked : ∀ past', Safe (sourcing env cfg A) (ServesOcsp env cfg A cacheKey) locked past' := by
    intro past'
    unfold locked
    split
    · intro resp h
      cases h
    refine safe_andThen (safe_harmless trivial) (fun past₁ _ _ _ => ?_) fun _ _ _ _ => nofun
    refine safe_bind safe_recentOcsp fun past₂ found _ hfound => ?_
    cases found with
    | some resp =>
      intro resp' h
      cases h
      exact hfound _ rfl
    | none =>
      refine safe_bind (safe_harmless trivial) fun past₃ now _ _ => ?_
      refine safe_bind safe_readOcsp fun past₄ found _ hfound => ?_
      cases found with
      | none => exact hfetch past₄
      | some rec =>
        simp only
        split
        · intro resp h
          cases h
          exact hfound rec rfl
        · exact safe_bind (safe_harmless trivial) fun past₅ _ _ _ => hfetch past₅
  refine safe_bind (safe_harmless trivial) fun past₁ now _ _ => ?_
  refine safe_bind safe_readOcsp fun past₂ found _ hfound => ?_
  cases found with
  | none => exact hlocked past₂
  | some rec =>
    simp only
    split
    · intro resp h
      cases h
      exact hfound rec rfl
    split
    · exact safe_bind (safe_harmless trivial) fun past₃ _ _ _ => hlocked past₃
    · exact hlocked past₂

end Ocsp

end Requests

section Runs

variable {env : Env} {chrono : Chrono} {cfg : Config} {A : Event Op Op.Res → Prop}
  {accepts : Request → Prop}

theorem safe_relays (q : Request) (past : Past) :
    Safe (sourcing env cfg A) (fun past' r => Relays env cfg A past' q r) (q.body env chrono cfg)
      past := by
  cases q with
  | getAmdKds pathAndQuery =>
    have hcanonical : Safe (sourcing env cfg A)
        (fun _ r => r = Paths.canonicalizeAmdKds pathAndQuery)
        (settled (Paths.canonicalizeAmdKds pathAndQuery)) past := rfl
    refine safe_andThen hcanonical (fun past₁ path _ hpath => ?_) fun _ _ _ _ => nofun
    have hkind : Fifo.Kind.amdKds ≠ .nvidiaOcsp := by decide
    exact safe_mono (safe_getCachedUrl hkind _) fun _ _ _ hr resp hresp =>
      ⟨path, hpath.symm, hr resp hresp⟩
  | getNvidiaRim pathAndQuery =>
    have hcanonical : Safe (sourcing env cfg A)
        (fun _ r => r = Paths.canonicalizeNvidiaRim pathAndQuery)
        (settled (Paths.canonicalizeNvidiaRim pathAndQuery)) past := rfl
    refine safe_andThen hcanonical (fun past₁ path _ hpath => ?_) fun _ _ _ _ => nofun
    have hkind : Fifo.Kind.nvidiaRim ≠ .nvidiaOcsp := by decide
    exact safe_mono (safe_getCachedUrl hkind _) fun _ _ _ hr resp hresp =>
      ⟨path, hpath.symm, hr resp hresp⟩
  | getNvidiaOcsp body => exact safe_getNvidiaOcspRequest chrono body
  | _ => exact safe_others (spares_unproxied chrono rfl)

theorem sourced_restarted {s : Memory} (hs : Sourced env cfg A s) :
    Sourced env cfg A s.restarted :=
  ⟨hs.rows, fun key had resp h => by simp [Memory.restarted] at h⟩

/-- Nothing is stored, remembered or running yet. -/
def Fresh (c : Process.Config (memorySystem env chrono cfg accepts).recorded) : Prop :=
  c.state = (⟨∅, ∅⟩, []) ∧ c.threads = []

/-- The answer of KDS in the run below. -/
def chainHttp : HttpResponse := ⟨200, [], [1]⟩

theorem recent_empty (now : Nat) (key : List UInt8) :
    recent failureTtl now (∅ : Memo (List UInt8) RecentOutcome) key = (none, ∅) := by
  simp [recent]

def chainPath : String := "/vcek/v1/Milan/cert_chain"

def chainUrl : String := Paths.joinHostPath lazyCfg.amdKdsUri chainPath

def chainRecord : AmdKdsRecord := ⟨chainUrl, [1], none, none, 5⟩

def chainSaved : Memory := ⟨(saveUrl Keys.plainEnv ⟨∅, 0, 0⟩ 0 .amdKds chainRecord).db, ∅⟩

/-- One operation of a request alone. -/
abbrev alonePerform : Memory → (o : Op) → o.Res → Memory → Prop :=
  fun s o r s' => forks o = [] ∧ performNoting Keys.plainEnv lazyCfg s o r s'

/-- A chain is fetched for an empty store. -/
theorem exec_amdKds : Exec alonePerform ⟨∅, ∅⟩
    (getAmdKdsRequest Keys.plainEnv lazyCfg chainPath) (.ok ⟨200, [1], none, none, none⟩)
    chainSaved := by
  have hcanonical : Exec alonePerform ⟨∅, ∅⟩ (settled (Paths.canonicalizeAmdKds chainPath))
      (.ok chainPath) ⟨∅, ∅⟩ := by
    have hpath : (Paths.canonicalizeAmdKds chainPath).toOption = some chainPath := by
      decide +kernel
    rw [toOption_eq_some.mp hpath]
    exact .ret _ _
  have hclock : Exec alonePerform ⟨∅, ∅⟩ (act .unixTime) (5 : Nat) ⟨∅, ∅⟩ :=
    Exec.call ⟨rfl, rfl, rfl⟩
  have hload : Exec alonePerform ⟨∅, ∅⟩ (act (.loadUrl .amdKds chainUrl)) none ⟨∅, ∅⟩ := by
    refine Exec.call ⟨rfl, ⟨?_, rfl⟩, rfl⟩
    simp [loadUrl, Fifo.getAmdKds]
  have hlock : Exec alonePerform ⟨∅, ∅⟩
      (act (.keyLock (asBytes (urlKey Keys.plainEnv .amdKds chainUrl)))) (.ok ()) ⟨∅, ∅⟩ := by
    refine Exec.call ⟨rfl, 0, ?_⟩
    simp only [recent_empty, and_self]
  have hrecent : Exec alonePerform ⟨∅, ∅⟩
      (act (.recentNon200 (asBytes (urlKey Keys.plainEnv .amdKds chainUrl)))) none ⟨∅, ∅⟩ := by
    refine Exec.call ⟨rfl, 0, ?_⟩
    simp only [recent_empty, and_self]
  have hfetch : Exec alonePerform ⟨∅, ∅⟩
      (note (asBytes (urlKey Keys.plainEnv .amdKds chainUrl))
        ((act (.fetch (.url .amdKds chainUrl))).bind fun r =>
          .ret (r.mapError fun _ => amdKdsAccessFailure))) (.ok chainHttp) ⟨∅, ∅⟩ :=
    (Exec.call (r := .ok chainHttp) ⟨rfl, rfl, rfl⟩).bind (.ret _ _)
  have hsave : Exec alonePerform ⟨∅, ∅⟩ (act (.saveUrl .amdKds chainRecord)) () chainSaved :=
    Exec.call ⟨rfl, ⟨0, 0, 0, rfl⟩, rfl⟩
  refine hcanonical.andThen_ok (hclock.bind (hload.bind (hlock.andThen_ok ?_)))
  refine hrecent.bind (hclock.bind (hload.bind (hfetch.andThen_ok ?_)))
  exact hclock.bind (hsave.bind (.ret _ _))

end Runs

end Pccs.Cache
