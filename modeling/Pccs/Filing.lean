import Pccs.CompareAndSet
import Pccs.Effects
import Pccs.FifoRuns

/-!
# Every write under its families

What an operation puts or deletes lies under the families it is for. For the
bounded kinds this rests on the index: an eviction deletes what the order rows
name, so these must name entries of their own kind.
-/
namespace Pccs.Cache

open Text Json KeyValue Store Process KeySpace Coherence

/-- Order rows name entries of their own kind. -/
def Named (s : Database) : Prop :=
  ∀ (kind : Fifo.Kind) (k e : List UInt8) (row : Row), s[k]? = some row →
    Fifo.fifoOrderPrefix kind <+: k → Fifo.victimOf kind k = some e → Fifo.IsEntry kind e

theorem named_empty : Named ∅ := by
  intro kind k e row h
  simp at h

/-- A write to a row of one of the families, and no order row of a stranger. -/
structure Filed (F : Family → Prop) (w : Write UInt8 Row) : Prop where
  family : ∃ f, F f ∧ asBytes f.word <+: w.key
  named : ∀ kind k e row, w = .put k row → Fifo.fifoOrderPrefix kind <+: k →
    Fifo.victimOf kind k = some e → Fifo.IsEntry kind e

section Writes

variable {F : Family → Prop} {f : Family} {k : List UInt8}

theorem family_unique {g : Family} (hf : asBytes f.word <+: k) (hg : asBytes g.word <+: k) :
    f = g := by
  refine Decidable.byContradiction fun hne => ?_
  obtain hp | hp := List.prefix_or_prefix_of_prefix hf hg
  · exact (words_apart hne).1 hp
  · exact (words_apart hne).2 hp

theorem filed_delete (hF : F f) (hk : asBytes f.word <+: k) : Filed F (.delete k) := by
  refine ⟨⟨f, hF, hk⟩, ?_⟩
  intro kind k' e row h
  cases h

theorem filed_put (hF : F f) (hk : asBytes f.word <+: k) (hne : ∀ kind, f ≠ .fifoOrder kind)
    (row : Row) : Filed F (.put k row) := by
  refine ⟨⟨f, hF, hk⟩, ?_⟩
  intro kind k' e row' h hpre
  cases h
  exact absurd (family_unique (g := .fifoOrder kind) hk hpre) (hne kind)

/-- The row of a key builder. -/
theorem filed_row {env : Env} (key : StoreKey) (hF : F key.family)
    (hne : ∀ kind, key.family ≠ .fifoOrder kind) (row : Row) :
    Filed F (.put (key.bytes env) row) := by
  obtain ⟨rest, hrest⟩ := bytes_word env key
  exact filed_put hF ⟨rest, hrest.symm⟩ hne row

variable {kind : Fifo.Kind} (hF : ∀ f ∈ boundedFamilies kind, F f)

include hF

theorem filed_entry {e : List UInt8} (he : Fifo.IsEntry kind e) :
    Filed F (.delete e) ∧ ∀ row, Filed F (.put e row) := by
  have hword := Fifo.isEntry_iff.mp he
  cases kind with
  | amdKds =>
    have hf := hF .amdKds (by decide)
    exact ⟨filed_delete hf hword, filed_put hf hword nofun⟩
  | nvidiaRim =>
    have hf := hF .nvidiaRim (by decide)
    exact ⟨filed_delete hf hword, filed_put hf hword nofun⟩
  | nvidiaOcsp =>
    have hf := hF .nvidiaOcsp (by decide)
    exact ⟨filed_delete hf hword, filed_put hf hword nofun⟩

theorem filed_pos (e : List UInt8) : Filed F (.delete (Fifo.fifoPosKey e)) ∧
    ∀ row, Filed F (.put (Fifo.fifoPosKey e) row) := by
  have hf : F .fifoPos := hF _ (by simp [boundedFamilies])
  have hk : asBytes Family.fifoPos.word <+: Fifo.fifoPosKey e := List.prefix_append _ _
  exact ⟨filed_delete hf hk, filed_put hf hk nofun⟩

theorem filed_count (row : Row) : Filed F (.put (Fifo.fifoCountKey kind) row) := by
  have hf : F (.fifoCount kind) := hF _ (by simp [boundedFamilies])
  exact filed_put hf List.prefix_rfl nofun row

theorem filed_orderRow (hk : Fifo.fifoOrderPrefix kind <+: k) : Filed F (.delete k) := by
  have hf : F (.fifoOrder kind) := hF _ (by simp [boundedFamilies])
  exact filed_delete hf hk

theorem filed_order {e : List UInt8} (he : Fifo.IsEntry kind e) (t : Nat) (row : Row) :
    Filed F (.put (Fifo.fifoOrderKey kind t e) row) := by
  have hf : F (.fifoOrder kind) := hF _ (by simp [boundedFamilies])
  have hk : Fifo.fifoOrderPrefix kind <+: Fifo.fifoOrderKey kind t e := List.prefix_append _ _
  refine ⟨⟨_, hf, hk⟩, ?_⟩
  intro kind' k' e' row' h hpre hvictim
  cases h
  cases family_unique (f := .fifoOrder kind) (g := .fifoOrder kind') hk hpre
  rw [Fifo.victimOf_orderKey] at hvictim
  cases hvictim
  exact he

theorem filed_unindex (db : Database) (e : List UInt8) :
    ∀ w ∈ (Fifo.unindex db kind e).1, Filed F w := by
  intro w hw
  unfold Fifo.unindex at hw
  split at hw
  · cases hw
  · obtain hw | hw := List.mem_append.mp hw
    · obtain ⟨t, _, rfl⟩ := List.mem_map.mp hw
      exact filed_orderRow hF (List.prefix_append _ _)
    · cases List.mem_singleton.mp hw
      exact (filed_pos hF e).1

end Writes

section Steps

variable {env : Env} {cfg : Config} {F : Family → Prop} {s s' : Database}

/-- Only rows of the families were written. -/
def Within (F : Family → Prop) (s s' : Database) : Prop :=
  ∃ batch : WriteBatch, s' = write s batch ∧ ∀ w ∈ batch, Filed F w

theorem Within.refl (s : Database) : Within F s s := ⟨[], rfl, by simp⟩

theorem Within.trans {s₁ : Database} (h : Within F s s₁) (h' : Within F s₁ s') : Within F s s' := by
  obtain ⟨batch, rfl, hb⟩ := h
  obtain ⟨batch', rfl, hb'⟩ := h'
  exact ⟨batch ++ batch', (write_append _ _ _).symm, List.forall_mem_append.mpr ⟨hb, hb'⟩⟩

theorem Within.named (h : Within F s s') (hs : Named s) : Named s' := by
  obtain ⟨batch, rfl, hbatch⟩ := h
  intro kind k e row hrow hpre hvictim
  obtain ⟨hsame, _⟩ | ⟨w, hw, hk, heffect⟩ := get_write_cases s batch k
  · exact hs kind k e row (hsame ▸ hrow) hpre hvictim
  · rw [heffect] at hrow
    cases w with
    | put k' row' =>
      cases hk
      exact (hbatch _ hw).named kind _ e row' rfl hpre hvictim
    | delete k' => cases hrow

/-- A row that changed is of one of the families. -/
theorem Within.changed (h : Within F s s') {k : List UInt8} (hk : s'[k]? ≠ s[k]?) :
    ∃ f, F f ∧ asBytes f.word <+: k := by
  obtain ⟨batch, rfl, hbatch⟩ := h
  obtain ⟨hsame, _⟩ | ⟨w, hw, rfl, _⟩ := get_write_cases s batch k
  · exact absurd hsame hk
  · exact (hbatch w hw).family

theorem within_commit {α : Type} {r : Except PccsError α} {result : Except PccsError (α × WriteBatch)}
    (h : (r, s') = commit s result)
    (hbatch : ∀ a batch, result = .ok (a, batch) → ∀ w ∈ batch, Filed F w) : Within F s s' := by
  obtain ⟨e, _, _, rfl⟩ | ⟨a, batch, hok, _, rfl⟩ := commit_cases h
  · exact .refl s'
  · exact ⟨batch, rfl, hbatch a batch hok⟩

variable {kind : Fifo.Kind} (hF : ∀ f ∈ boundedFamilies kind, F f)

include hF

/-- What a write evicts, its order rows name. -/
theorem within_putBounded {s : Fifo.FifoStore} (hs : Named s.db) (micros : Nat) {e : List UInt8}
    (he : Fifo.IsEntry kind e) (val : Row) :
    Within F s.db (Fifo.putBounded s micros kind e val).db := by
  unfold Fifo.putBounded
  refine ⟨_, rfl, fun w hw => ?_⟩
  obtain hw | hw := List.mem_append.mp hw
  · obtain hw | hw := List.mem_append.mp hw
    · obtain hw | hw := List.mem_append.mp hw
      · obtain ⟨t, _, rfl⟩ := List.mem_map.mp hw
        exact filed_orderRow hF (List.prefix_append _ _)
      · simp only [List.mem_cons, List.not_mem_nil, or_false] at hw
        obtain rfl | rfl | rfl := hw
        · exact (filed_entry hF he).2 val
        · exact (filed_pos hF e).2 _
        · exact filed_order hF he _ _
    · obtain ⟨⟨victim, orderKey⟩, hmem, hw⟩ := List.mem_flatMap.mp hw
      rw [Fifo.evict_eq] at hmem
      obtain ⟨k, hk, hv⟩ := List.mem_filterMap.mp (List.mem_filter.mp (List.mem_of_mem_take hmem)).1
      obtain ⟨v, hvictim, hv⟩ := Option.map_eq_some_iff.mp hv
      cases hv
      obtain ⟨⟨_, row⟩, hrow, rfl⟩ := List.mem_map.mp hk
      obtain ⟨hget, hpre⟩ := (mem_scanPrefix s.db _ _ row).mp hrow
      have hentry := hs kind _ _ row hget hpre hvictim
      simp only [List.mem_cons, List.not_mem_nil, or_false] at hw
      obtain rfl | rfl | rfl := hw
      · exact (filed_entry hF hentry).1
      · exact (filed_pos hF _).1
      · exact filed_orderRow hF hpre
  · cases List.mem_singleton.mp hw
    exact filed_count hF _

theorem within_deleteKey (s : Fifo.FifoStore) {key : String} (he : Fifo.IsEntry kind (asBytes key)) :
    Within F s.db (Fifo.deleteKey s key).db := by
  simp only [Fifo.deleteKey, Fifo.kindOf_eq he]
  refine ⟨_, rfl, fun w hw => ?_⟩
  obtain hw | hw := List.mem_append.mp hw
  · obtain rfl | hw := List.mem_cons.mp hw
    · exact (filed_entry hF he).1
    · exact filed_unindex hF s.db _ w hw
  · split at hw
    · cases List.mem_singleton.mp hw
      exact filed_count hF _
    · cases hw

theorem within_sweepPrefix (s : Fifo.FifoStore) (expired : Row → Bool) :
    Within F s.db (Fifo.sweepPrefix s kind expired).db := by
  unfold Fifo.sweepPrefix
  simp only
  split
  · exact .refl s.db
  refine ⟨_, rfl, fun w hw => ?_⟩
  obtain hw | hw := List.mem_append.mp hw
  · obtain ⟨key, hkey, hw⟩ := List.mem_flatMap.mp hw
    obtain rfl | hw := List.mem_cons.mp hw
    · obtain ⟨row, hrow, rfl⟩ := List.mem_map.mp hkey
      have hscan := (mem_scanPrefix s.db _ row.1 row.2).mp (List.mem_filter.mp hrow).1
      exact (filed_entry hF (Fifo.isEntry_iff.mpr hscan.2)).1
    · exact filed_unindex hF s.db key w hw
  · split at hw
    · cases List.mem_singleton.mp hw
      exact filed_count hF _
    · cases hw

end Steps

section Operations

variable {env : Env} {cfg : Config} {F : Family → Prop} {s s' : Database}

/-- What the operation writes is of these families. -/
def Op.Files (F : Family → Prop) : Op → Prop
  | .put w => Filed F w
  | .saveUrl kind _ => ∀ f ∈ boundedFamilies kind, F f
  | .putNvidiaOcsp _ => ∀ f ∈ boundedFamilies .nvidiaOcsp, F f
  | .deleteKey key =>
    ∃ kind, Fifo.IsEntry kind (asBytes key) ∧ ∀ f ∈ boundedFamilies kind, F f
  | .sweepExpired _ => ∀ kind, ∀ f ∈ boundedFamilies kind, F f
  | .selectPlatformCert _ _ _ _ => F .pckcert ∧ F .platform
  | .storePckcerts _ _ _ _ _ _ => F .pckcert ∧ F .platform ∧ F .tcb
  | .publishRefreshed _ _ _ => F .pckcert ∧ F .platform ∧ F .tcb
  | .mergePckcert _ _ => F .pckcert ∧ F .platform
  | .putPlatforms _ _ => F .pckcert ∧ F .platform
  | _ => True

theorem filed_tcb (hF : F .tcb) (rec : TcbRecord) : Filed F (putTcb env rec) :=
  filed_row (.tcb _ _ _ _) hF nofun _

theorem filed_pckcert (hF : F .pckcert) (rec : PckCertRecord) : Filed F (putPckcert env rec) :=
  filed_row (.pckcert _ _ _ _) hF nofun _

theorem filed_identity (hF : F .identity) (rec : IdentityRecord) : Filed F (putIdentity env rec) :=
  filed_row (.identity _ _ _) hF nofun _

theorem filed_pckcrl (hF : F .pckcrl) (rec : PckCrlRecord) : Filed F (putPckcrl env rec) :=
  filed_row (.pckcrl _) hF nofun _

theorem filed_crl (hF : F .crl) (uri : String) (crl : List UInt8) : Filed F (putCrl env uri crl) :=
  filed_row (.crl _) hF nofun _

theorem filed_register (hF : F .preg) (p : RegisteredPlatform) : Filed F (registerPlatform env p) :=
  filed_row (.preg _ _ _ _) hF nofun _

theorem filed_platform (hF : F .platform) (qeid pceid : String) (pool : PlatformPool) :
    Filed F (.put (Keys.platform env qeid pceid) (.platform pool)) :=
  filed_row (.platform _ _) hF nofun _

theorem covers_files (env : Env) (F : Family → Prop) : Covers env (Op.Files F) F := by
  constructor
  case idle =>
    intro o ho
    cases o <;> trivial
  case select => exact fun hrec hpool _ _ _ _ => ⟨hrec, hpool⟩
  case store => exact fun hrec hpool htcb _ _ _ _ _ _ => ⟨hrec, hpool, htcb⟩
  case publish => exact fun hrec hpool htcb _ _ _ => ⟨hrec, hpool, htcb⟩
  case merge => exact fun hrec hpool _ _ => ⟨hrec, hpool⟩
  case platforms => exact fun hrec hpool _ _ => ⟨hrec, hpool⟩
  case tcb => exact fun hF rec => filed_tcb hF rec
  case identity => exact fun hF rec => filed_identity hF rec
  case pckcrl => exact fun hF rec => filed_pckcrl hF rec
  case rootcacrl => exact fun hF crl => @filed_row F env .rootcacrl hF nofun _
  case crl => exact fun hF uri crl => filed_crl hF uri crl
  case register => exact fun hF p => filed_register hF p
  case unregister =>
    intro hF p
    obtain ⟨rest, hrest⟩ := bytes_word env (.preg (normalizeReg p).qeId (normalizeReg p).pceId
      (normalizeReg p).cpuSvn (normalizeReg p).pceSvn)
    exact filed_delete hF ⟨rest, hrest.symm⟩
  case save => exact fun kind hF _ => hF
  case saveOcsp => exact fun hF _ => hF
  case drop =>
    intro kind hF rest
    exact ⟨kind, Fifo.isEntry_under rest, hF⟩
  case sweep => exact fun hF _ => hF
  all_goals intros; trivial

theorem within_perform {o : Op} {r : o.Res} (hs : Named s) (ho : o.Files F)
    (h : perform env cfg s o r s') : Within F s s' := by
  cases o with
  | put w =>
    obtain rfl := h
    exact ⟨[w], rfl, List.forall_mem_singleton.mpr ho⟩
  | saveUrl kind rec =>
    obtain ⟨last, max, micros, rfl⟩ := h
    cases kind with
    | amdKds => exact within_putBounded (s := ⟨s, last, max⟩) ho hs micros (Fifo.isEntry_under _) _
    | nvidiaRim =>
      exact within_putBounded (s := ⟨s, last, max⟩) ho hs micros (Fifo.isEntry_under _) _
    | nvidiaOcsp => exact .refl s
  | putNvidiaOcsp rec =>
    obtain ⟨last, max, micros, rfl⟩ := h
    exact within_putBounded (s := ⟨s, last, max⟩) ho hs micros (Fifo.isEntry_under _) _
  | deleteKey key =>
    obtain rfl := h
    obtain ⟨kind, he, hF⟩ := ho
    exact within_deleteKey hF ⟨s, 0, 0⟩ he
  | sweepExpired now =>
    obtain rfl := h
    unfold sweepExpired
    simp only
    refine .trans ?_ (within_sweepPrefix (ho _) _ _)
    refine .trans ?_ (within_sweepPrefix (ho _) _ _)
    exact within_sweepPrefix (ho _) ⟨s, 0, 0⟩ _
  | selectPlatformCert qeid pceid cpusvn pcesvn =>
    refine within_commit h fun rec batch hok w hw => ?_
    obtain ⟨pool, _, _, rfl⟩ := select_eq_ok hok
    obtain rfl | rfl := List.mem_pair.mp hw
    · exact filed_pckcert ho.1 rec
    · exact filed_platform ho.2 qeid pceid _
  | storePckcerts pceid context pool resp tcbs requested =>
    refine within_commit h fun found batch hok => ?_
    obtain ⟨tcb, _, hreplace⟩ := storePckcerts_eq_ok hok
    exact replace_forall (filed_pckcert ho.1) (filed_tcb ho.2.2)
      (fun pool => filed_platform ho.2.1 _ _ pool) hreplace
  | publishRefreshed fresh expected tcb =>
    refine within_commit h fun u batch hok => ?_
    exact replace_forall (filed_pckcert ho.1) (filed_tcb ho.2.2)
      (fun pool => filed_platform ho.2.1 _ _ pool) (publishRefreshed_eq_ok hok)
  | mergePckcert rec publication =>
    exact within_commit h fun _ _ hok =>
      merge_forall (filed_pckcert ho.1) (fun pool => filed_platform ho.2 _ _ pool) hok
  | putPlatforms body version =>
    obtain rfl | ⟨batch, hok, rfl⟩ := platforms_cases h
    · exact .refl _
    · exact ⟨batch, rfl, Collateral.platformWrites_forall (filed_pckcert ho.1)
        (fun pool => filed_platform ho.2 _ _ pool) hok⟩
  | _ =>
    first
    | obtain rfl := h.2
      exact .refl _
    | obtain rfl := h
      exact .refl _

end Operations

end Pccs.Cache
