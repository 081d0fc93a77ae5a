import Pccs.CompareAndSet
import Pccs.Effects

/-!
# Which requests leave the proxied records alone

Only the three proxied lookups save what AMD and NVIDIA answer. The lemmas follow
every other request and every batch the store commits for it: rows of proxied
kinds are deleted by them, never put.
-/
namespace Pccs

/-- A record of what a proxied service answered. -/
def Row.proxied : Row → Bool
  | .amdKds _ => true
  | .nvidiaRim _ => true
  | .nvidiaOcsp _ => true
  | _ => false

end Pccs

namespace Pccs.Cache

open Text Json Fallible KeyValue Store Process Runs Coherence KeySpace

/-- The write puts no proxied record. -/
def WritesUnproxied (w : Write UInt8 Row) : Prop := ∀ k row, w = .put k row → row.proxied = false

/-- An operation that neither saves a proxied record nor remembers a status. -/
def Op.Unproxied : Op → Prop
  | .put w => WritesUnproxied w
  | .saveUrl _ _ => False
  | .putNvidiaOcsp _ => False
  | .rememberResponse _ _ => False
  | _ => True

section Batches

variable {env : Env} {cfg : Config} {s s' : Database}

theorem unproxied_put {k : List UInt8} {row : Row} (h : row.proxied = false) :
    WritesUnproxied (.put k row) := by
  intro k' row' he
  cases he
  exact h

theorem unproxied_delete (k : List UInt8) : WritesUnproxied (.delete k) := nofun

/-- The batch puts no proxied record. -/
def Unproxied (s s' : Database) : Prop :=
  ∃ batch : WriteBatch, s' = write s batch ∧ ∀ w ∈ batch, WritesUnproxied w

theorem Unproxied.refl (s : Database) : Unproxied s s := ⟨[], rfl, by simp⟩

theorem Unproxied.trans {s₁ : Database} (h : Unproxied s s₁) (h' : Unproxied s₁ s') :
    Unproxied s s' := by
  obtain ⟨batch, rfl, hb⟩ := h
  obtain ⟨batch', rfl, hb'⟩ := h'
  exact ⟨batch ++ batch', (write_append _ _ _).symm, List.forall_mem_append.mpr ⟨hb, hb'⟩⟩

/-- What holds of all proxied records goes on holding. -/
theorem Unproxied.every {P : Row → Prop} (h : Unproxied s s')
    (hP : ∀ row : Row, row.proxied = false → P row) (hs : Every P s) : Every P s' := by
  obtain ⟨batch, rfl, hbatch⟩ := h
  exact hs.write fun k row hput => hP row (hbatch _ hput k row rfl)

theorem unproxied_commit {α : Type} {r : Except PccsError α}
    {result : Except PccsError (α × WriteBatch)} (h : (r, s') = commit s result)
    (hbatch : ∀ a batch, result = .ok (a, batch) → ∀ w ∈ batch, WritesUnproxied w) :
    Unproxied s s' := by
  obtain ⟨e, _, _, rfl⟩ | ⟨a, batch, hok, _, rfl⟩ := commit_cases h
  · exact .refl s'
  · exact ⟨batch, rfl, hbatch a batch hok⟩

theorem unproxied_unindex (db : Database) (kind : Fifo.Kind) (entry : List UInt8) :
    ∀ w ∈ (Fifo.unindex db kind entry).1, WritesUnproxied w := by
  intro w hw
  unfold Fifo.unindex at hw
  split at hw
  · cases hw
  · obtain hw | hw := List.mem_append.mp hw
    · obtain ⟨t, _, rfl⟩ := List.mem_map.mp hw
      exact unproxied_delete _
    · cases List.mem_singleton.mp hw
      exact unproxied_delete _

theorem unproxied_deleteKey (s : Fifo.FifoStore) (key : String) :
    Unproxied s.db (Fifo.deleteKey s key).db := by
  unfold Fifo.deleteKey
  split
  · exact ⟨_, rfl, List.forall_mem_singleton.mpr (unproxied_delete _)⟩
  · rename_i kind _
    refine ⟨_, rfl, fun w hw => ?_⟩
    obtain hw | hw := List.mem_append.mp hw
    · obtain rfl | hw := List.mem_cons.mp hw
      · exact unproxied_delete _
      · exact unproxied_unindex s.db kind _ w hw
    · split at hw
      · cases List.mem_singleton.mp hw
        exact unproxied_put rfl
      · cases hw

theorem unproxied_sweepPrefix (s : Fifo.FifoStore) (kind : Fifo.Kind) (expired : Row → Bool) :
    Unproxied s.db (Fifo.sweepPrefix s kind expired).db := by
  unfold Fifo.sweepPrefix
  simp only
  split
  · exact .refl s.db
  refine ⟨_, rfl, fun w hw => ?_⟩
  obtain hw | hw := List.mem_append.mp hw
  · obtain ⟨key, _, hw⟩ := List.mem_flatMap.mp hw
    obtain rfl | hw := List.mem_cons.mp hw
    · exact unproxied_delete _
    · exact unproxied_unindex s.db kind key w hw
  · split at hw
    · cases List.mem_singleton.mp hw
      exact unproxied_put rfl
    · cases hw

theorem unproxied_sweepExpired (cfg : Config) (s : Fifo.FifoStore) (now : Nat) :
    Unproxied s.db (sweepExpired cfg s now).db := by
  unfold sweepExpired
  simp only
  refine .trans ?_ (unproxied_sweepPrefix _ _ _)
  refine .trans ?_ (unproxied_sweepPrefix _ _ _)
  exact unproxied_sweepPrefix s _ _

/-- No operation but those of the proxied lookups puts a proxied record. -/
theorem unproxied_perform {o : Op} {r : o.Res} (ho : o.Unproxied)
    (h : perform env cfg s o r s') : Unproxied s s' := by
  cases o with
  | saveUrl kind rec => exact ho.elim
  | putNvidiaOcsp rec => exact ho.elim
  | put w =>
    obtain rfl := h
    exact ⟨[w], rfl, List.forall_mem_singleton.mpr ho⟩
  | deleteKey key =>
    obtain rfl := h
    exact unproxied_deleteKey _ _
  | sweepExpired now =>
    obtain rfl := h
    exact unproxied_sweepExpired cfg _ now
  | selectPlatformCert qeid pceid cpusvn pcesvn =>
    refine unproxied_commit h fun rec batch hok w hw => ?_
    obtain ⟨pool, _, _, rfl⟩ := select_eq_ok hok
    obtain rfl | rfl := List.mem_pair.mp hw <;> exact unproxied_put rfl
  | storePckcerts pceid context pool resp tcbs requested =>
    refine unproxied_commit h fun found batch hok => ?_
    obtain ⟨tcb, _, hreplace⟩ := storePckcerts_eq_ok hok
    exact replace_forall (fun _ => unproxied_put rfl) (fun _ => unproxied_put rfl)
      (fun _ => unproxied_put rfl) hreplace
  | publishRefreshed fresh expected tcb =>
    refine unproxied_commit h fun u batch hok => ?_
    exact replace_forall (fun _ => unproxied_put rfl) (fun _ => unproxied_put rfl)
      (fun _ => unproxied_put rfl) (publishRefreshed_eq_ok hok)
  | mergePckcert rec publication =>
    exact unproxied_commit h fun _ _ hok =>
      merge_forall (fun _ => unproxied_put rfl) (fun _ => unproxied_put rfl) hok
  | putPlatforms body version =>
    obtain rfl | ⟨batch, hok, rfl⟩ := platforms_cases h
    · exact .refl _
    · exact ⟨batch, rfl, Collateral.platformWrites_forall (fun _ => unproxied_put rfl)
        (fun _ => unproxied_put rfl) hok⟩
  | _ =>
    first
    | obtain rfl := h.2
      exact .refl _
    | obtain rfl := h
      exact .refl _

end Batches

section Bodies

variable {env : Env} {cfg : Config}

/-- The rows of a bounded kind, with those of its index. -/
def bounded : Family → Bool
  | .amdKds => true
  | .nvidiaRim => true
  | .nvidiaOcsp => true
  | .fifoOrder _ => true
  | .fifoPos => true
  | .fifoCount _ => true
  | _ => false

theorem unbounded {families : List Family} (h : families.any bounded = false) :
    ∀ f ∈ families, bounded f = false := by
  simpa using h

/-- Rows of other families hold no proxied record. -/
theorem covers_unproxied (env : Env) : Covers env Op.Unproxied fun f => bounded f = false := by
  have hnone : ∀ (kind : Fifo.Kind) {Q : Prop},
      (∀ f ∈ boundedFamilies kind, bounded f = false) → Q := by
    intro kind Q h
    cases kind with
    | amdKds => cases h .amdKds (by decide)
    | nvidiaRim => cases h .nvidiaRim (by decide)
    | nvidiaOcsp => cases h .nvidiaOcsp (by decide)
  constructor
  case idle =>
    intro o ho
    cases o <;> trivial
  case save => exact fun kind h _ => hnone kind h
  case saveOcsp => exact fun h _ => hnone .nvidiaOcsp h
  case remember => exact fun kind h _ _ => hnone kind h
  case unregister => exact fun _ _ => unproxied_delete _
  case tcb => exact fun _ _ => unproxied_put rfl
  case identity => exact fun _ _ => unproxied_put rfl
  case pckcrl => exact fun _ _ => unproxied_put rfl
  case rootcacrl => exact fun _ _ => unproxied_put rfl
  case crl => exact fun _ _ _ => unproxied_put rfl
  case register => exact fun _ _ => unproxied_put rfl
  all_goals intros; trivial

/-- The three lookups of proxied services. -/
def Request.proxied : Request → Bool
  | .getAmdKds _ => true
  | .getNvidiaRim _ => true
  | .getNvidiaOcsp _ => true
  | _ => false

/-- Every other request leaves the proxied records alone, but for the sweep. -/
theorem spares_unproxied (chrono : Ocsp.Chrono) {q : Request} (hq : q.proxied = false) :
    Only Op.Unproxied (q.body env chrono cfg) := by
  have hP := covers_unproxied env
  cases q with
  | getAmdKds path => cases hq
  | getNvidiaRim path => cases hq
  | getNvidiaOcsp body => cases hq
  | scheduledRefresh =>
    exact only_bind (covered_idle hP rfl) fun now => covered_scheduled hP (fun _ => by decide) trivial
  | _ =>
    refine covered_body hP chrono (unbounded ?_)
    cases cfg.mode <;> rfl

end Bodies

end Pccs.Cache
