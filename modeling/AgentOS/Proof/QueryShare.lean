import AgentOS.Proof.IndexBuild

/-!
# The shared query cache among changes of metadata

* `Answers`: what a query answers from an index, whatever time it took.
* `step_core`: a step of the machine is a step of the builds.
* `CacheInv`: entries of the current version, and answers about to be stored, come from the
  complete index of the metadata that the version stands for.
* `QueriesAlone`: no evaluation and no hit meets a build or the version of another agent.
* `cache_current`: then no entry outlives its data; `stale_store` is what happens without it.
-/

namespace AgentOS

open Machine

/-- `result` answers the query `params` from the index `t`. -/
def Answers (t : AgentFileIndex) (params result : List UInt8) : Prop :=
  ∃ q r ticksCost, fileQueryParse params = some q ∧ queryRun t q = some r ∧
    result = safestrcpy (queryAnswer r.1 r.2 q.forceScan (fullScanned t) ticksCost)
      agentToolResultMax

theorem fileQueryParse_congr {a b : List UInt8} (h : streq a b = true) :
    fileQueryParse a = fileQueryParse b := by
  unfold streq at h
  rw [beq_iff_eq] at h
  unfold fileQueryParse
  rw [h]

theorem Answers.congr {t : AgentFileIndex} {a b result : List UInt8} (h : Answers t a result)
    (hs : streq a b = true) : Answers t b result := by
  obtain ⟨q, r, k, hq, hr, he⟩ := h
  exact ⟨q, r, k, (fileQueryParse_congr hs).symm.trans hq, hr, he⟩

/-! ### The cache alone -/

/-- Every entry is of this version or older, and those of this version answer from `t`. -/
structure CachesCurrent (t : AgentFileIndex) (c : QueryCaches) : Prop where
  bounded : ∀ k, (c.entries k).used = true → (c.entries k).version ≤ c.version
  current : ∀ k, (c.entries k).used = true → (c.entries k).version = c.version →
    Answers t (c.entries k).query (c.entries k).result

section

variable {t t' : AgentFileIndex} {c : QueryCaches} {p : Proc} {params buf : List UInt8}
variable {k : Fin agentSharedQueryCacheMax}

/-- A lookup counts a reference of the entry it hits, and changes nothing else. -/
theorem lookup_entries (c : QueryCaches) (p : Proc) (params : List UInt8) :
    (sharedQueryCacheLookup c p params).1.version = c.version ∧
      ∀ k, ∃ n, (sharedQueryCacheLookup c p params).1.entries k =
        { c.entries k with refcnt := n } := by
  unfold sharedQueryCacheLookup
  split
  · exact ⟨rfl, fun k => ⟨(c.entries k).refcnt, rfl⟩⟩
  · rename_i j _
    refine ⟨rfl, fun k => ?_⟩
    by_cases hk : k = j
    · subst hk
      exact ⟨(c.entries k).refcnt + 1, Function.update_self ..⟩
    · exact ⟨(c.entries k).refcnt, Function.update_of_ne hk ..⟩

theorem CachesCurrent.lookup (h : CachesCurrent t c) :
    CachesCurrent t (sharedQueryCacheLookup c p params).1 := by
  obtain ⟨hv, he⟩ := lookup_entries c p params
  refine ⟨fun k hk => ?_, fun k hk hcur => ?_⟩
  · obtain ⟨n, hn⟩ := he k
    rw [hn] at hk ⊢
    rw [hv]
    exact h.bounded k hk
  · obtain ⟨n, hn⟩ := he k
    rw [hn] at hk hcur ⊢
    rw [hv] at hcur
    exact h.current k hk hcur

/-- A store replaces entries by the new one, of the current version. -/
theorem store_entries (c : QueryCaches) (p : Proc) (params buf : List UInt8) :
    ∃ e : SharedQueryCache, e.query = safestrcpy params agentToolParamMax ∧
      e.result = safestrcpy buf agentToolResultMax ∧ e.version = c.version ∧
      (sharedQueryCacheStore c p params buf).version = c.version ∧
      ∀ k, (sharedQueryCacheStore c p params buf).entries k = e ∨
        (sharedQueryCacheStore c p params buf).entries k = c.entries k := by
  refine ⟨⟨true, safestrcpy params agentToolParamMax, safestrcpy buf agentToolResultMax, p.pid,
    p.ident.agentGroup, 1, c.version⟩, rfl, rfl, rfl, rfl, fun k => ?_⟩
  by_cases hk : k = sharedQueryCacheSlot c params
  · subst hk
    exact Or.inl (Function.update_self ..)
  · exact Or.inr (Function.update_of_ne hk ..)

theorem CachesCurrent.store (h : CachesCurrent t c)
    (hp : safestrcpy params agentToolParamMax = params)
    (ha : Answers t params (safestrcpy buf agentToolResultMax)) :
    CachesCurrent t (sharedQueryCacheStore c p params buf) := by
  obtain ⟨e, hq, hr, hv, hversion, he⟩ := store_entries c p params buf
  refine ⟨fun k hk => ?_, fun k hk hcur => ?_⟩
  · rw [hversion]
    rcases he k with hk' | hk'
    · rw [hk', hv]
    · rw [hk'] at hk ⊢
      exact h.bounded k hk
  · rw [hversion] at hcur
    rcases he k with hk' | hk'
    · rw [hk', hq, hr, hp]
      exact ha
    · rw [hk'] at hk hcur ⊢
      exact h.current k hk hcur

/-- Behind a bump no entry is current. -/
theorem CachesCurrent.bump (h : CachesCurrent t c) (hv : c.version + 1 < 2 ^ 64) :
    CachesCurrent t' (agentFileVersionBump c) := by
  have hversion : (agentFileVersionBump c).version = c.version + 1 := Nat.mod_eq_of_lt hv
  refine ⟨fun k hk => ?_, fun k hk hcur => ?_⟩
  · have hb := h.bounded k hk
    rw [hversion]
    exact Nat.le_succ_of_le hb
  · have hb : ((agentFileVersionBump c).entries k).version ≤ c.version := h.bounded k hk
    omega

/-- A hit is an entry of the current version for the same query. -/
theorem lookup_hit {result : List UInt8}
    (hr : (sharedQueryCacheLookup c p params).2 = some result) :
    ∃ k refcnt, (c.entries k).used = true ∧ (c.entries k).version = c.version ∧
      streq (c.entries k).query params = true ∧
      result = queryResultWithCache (c.entries k).result 1 (c.entries k).ownerPid refcnt
        c.version 0 := by
  unfold sharedQueryCacheLookup at hr
  split at hr
  · cases hr
  · rename_i k hk
    have hfound := Table.first_some (by unfold sharedQueryCacheFind at hk; exact hk)
    simp only [Bool.and_eq_true, beq_iff_eq] at hfound
    obtain ⟨⟨⟨hu, hv⟩, hq⟩, _⟩ := hfound
    refine ⟨k, (c.entries k).refcnt + 1, hu, hv, hq, ?_⟩
    have hr' := Option.some.inj hr
    rw [← hr', ← hv]

end

/-! ### The machine -/

/-- The machine, seen from the index. -/
def QuerySystem.core (s : QuerySystem) : BuildCore where
  stage := fun i => (s.calls i).stage
  walk := s.walk
  inodes := s.inodes
  index := s.index
  root := s.root
  stands := s.stands

/-- The parameters of the query that a call serves. -/
def QueryCall.params : QueryCall → Option (List UInt8)
  | .lookup p | .ensure p | .evaluate p | .store p _ _ => some p
  | .build (.query p) | .walking (.query p) _ | .finish (.query p) => some p
  | _ => none

section

variable {s t : QuerySystem} {a : QueryLabel} {i j : Slot} {c c' : QueryCall}

theorem stage_goto (c : QueryCall) :
    (fun j => ((s.goto i c).calls j).stage) =
      Function.update (fun j => (s.calls j).stage) i c.stage := by
  funext j
  unfold QuerySystem.goto
  by_cases hj : j = i
  · subst hj
    simp only [Function.update_self]
  · simp only [Function.update_of_ne hj]

theorem core_goto (c : QueryCall) : (s.goto i c).core = s.core.goto i c.stage := by
  unfold QuerySystem.core BuildCore.goto
  rw [stage_goto]
  rfl

/-- A move that the index does not see. -/
theorem core_goto_same (hc : s.calls i = c) (h : c.stage = c'.stage) :
    CoreStep s.core (s.goto i c').core := by
  have he : (s.goto i c').core = s.core := by
    unfold QuerySystem.core
    rw [stage_goto, ← h, ← hc, Function.update_eq_self]
    rfl
  rw [he]
  exact .same

theorem core_stage (hc : s.calls i = c) : s.core.stage i = c.stage := by
  rw [← hc]
  rfl

/-- **A step of the machine is a step of the builds.** -/
theorem step_core (h : queryMachine.next s a = some t) : CoreStep s.core t.core := by
  cases a with
  | query i params pages =>
    simp only [queryMachine, QuerySystem.next] at h
    split at h <;> [skip; cases h]
    rename_i hc
    split at h
    · cases h
      exact core_goto_same hc rfl
    · cases h
      exact core_goto_same hc rfl
  | lookup i page =>
    simp only [queryMachine, QuerySystem.next] at h
    split at h <;> [skip; cases h]
    rename_i params hc
    split at h
    · split at h
      · cases h
        exact core_goto_same hc rfl
      · cases h
        exact core_goto_same hc rfl
    · cases h
      exact core_goto_same hc rfl
  | ensure i =>
    simp only [queryMachine, QuerySystem.next] at h
    split at h <;> [skip; cases h]
    rename_i params hc
    cases h
    exact core_goto_same hc (by split <;> rfl)
  | clear i =>
    simp only [queryMachine, QuerySystem.next] at h
    split at h <;> [skip; cases h]
    rename_i c hc
    split at h <;> [skip; cases h]
    rename_i hr
    cases h
    rw [core_goto]
    exact .clear i c (core_stage hc) hr
  | visit i =>
    simp only [queryMachine, QuerySystem.next] at h
    split at h <;> [skip; cases h]
    rename_i c n hc
    split at h <;> [skip; cases h]
    rename_i f hf
    cases h
    rw [core_goto]
    exact .visit i c n f (core_stage hc) hf
  | walked i =>
    simp only [queryMachine, QuerySystem.next] at h
    split at h <;> [skip; cases h]
    rename_i c n hc
    split at h <;> [skip; cases h]
    rename_i hn
    subst hn
    cases h
    rw [core_goto]
    exact .walked i c (core_stage hc)
  | finish i =>
    simp only [queryMachine, QuerySystem.next] at h
    split at h <;> [skip; cases h]
    rename_i c hc
    cases h
    rw [core_goto]
    exact .finish i c (core_stage hc)
  | evaluate i ticksCost =>
    simp only [queryMachine, QuerySystem.next] at h
    split at h <;> [skip; cases h]
    rename_i params hc
    split at h
    · cases h
      exact core_goto_same hc rfl
    · simp only [Option.map_eq_some_iff] at h
      obtain ⟨r, _, rfl⟩ := h
      exact core_goto_same hc rfl
  | store i =>
    simp only [queryMachine, QuerySystem.next] at h
    split at h <;> [skip; cases h]
    rename_i params buf full hc
    cases h
    exact core_goto_same hc rfl
  | answer i =>
    simp only [queryMachine, QuerySystem.next] at h
    split at h <;> [skip; cases h]
    rename_i buf full hc
    cases h
    exact core_goto_same hc rfl
  | change i inum c =>
    simp only [queryMachine, QuerySystem.next] at h
    split at h <;> [skip; cases h]
    rename_i hc
    split at h
    · cases h
      exact core_goto_same hc rfl
    · rename_i ip _
      cases h
      rw [core_goto]
      exact .change i inum ip (core_stage hc)
  | bump i =>
    simp only [queryMachine, QuerySystem.next] at h
    split at h <;> [skip; cases h]
    rename_i hc
    cases h
    rw [core_goto]
    exact .bump i (core_stage hc)
  | sysret i =>
    simp only [queryMachine, QuerySystem.next] at h
    split at h <;> [skip; cases h]
    rename_i hc
    cases h
    exact core_goto_same hc rfl
  | other i p =>
    cases h
    exact .same

/-! ### The cache among builds and changes -/

/-- What a call relies on; `full` is the complete index of what the version stands for. -/
structure CallOk (full index : AgentFileIndex) (c : QueryCall) : Prop where
  params : ∀ p, c.params = some p → safestrcpy p agentToolParamMax = p
  evaluate : ∀ p, c = .evaluate p → index.ready = true
  store : ∀ p buf n, c = .store p buf n → index.ready = true ∧
    Answers full p (safestrcpy buf agentToolResultMax)

/-- **The invariant of the cache.** While things are settled, no build has touched the index and
no version was set. -/
structure CacheInv (s : QuerySystem) : Prop where
  caches : CachesCurrent (s.complete s.stands) s.caches
  cached : ∀ k, (s.caches.entries k).used = true → s.index.ready = true
  calls : ∀ i, CallOk (s.complete s.stands) s.index (s.calls i)
  outside : s.settled = true → ∀ i, (s.calls i).stage = .out ∨ (s.calls i).stage = .pending
  index : s.settled = true → s.index.ready = true → s.index = s.complete s.stands

theorem CallOk.mono {full index index' : AgentFileIndex} (h : CallOk full index c)
    (hr : index.ready = true → index'.ready = true) : CallOk full index' c where
  params := h.params
  evaluate p hc := hr (h.evaluate p hc)
  store p buf n hc := ⟨hr (h.store p buf n hc).1, (h.store p buf n hc).2⟩

/-- A call between two sections that neither evaluates nor stores next. -/
theorem CallOk.through {full index : AgentFileIndex} (h : CallOk full index c)
    (hp : c'.params = c.params ∨ c'.params = none) (he : ∀ p, c' ≠ .evaluate p)
    (hs : ∀ p buf n, c' ≠ .store p buf n) : CallOk full index c' where
  params p hc := by
    rcases hp with hp | hp
    · exact h.params p (hp ▸ hc)
    · rw [hp] at hc
      cases hc
  evaluate p hc := absurd hc (he p)
  store p buf n hc := absurd hc (hs p buf n)

theorem busy_eq_false : c.busy = false ↔ c.stage = .out := by
  unfold QueryCall.busy QueryCall.stage
  cases c with
  | build c => cases c <;> simp
  | _ => simp

/-- A move settles things only if it leaves no agent busy. -/
theorem settled_goto (h : (s.goto i c).settled = true) :
    s.settled = true ∨ ∀ j, ((s.goto i c).calls j).stage = .out := by
  unfold QuerySystem.goto at h ⊢
  dsimp only at h ⊢
  rw [Bool.or_eq_true, decide_eq_true_iff] at h
  exact h.imp id fun hout j => busy_eq_false.1 (hout j)

/-- A move of one agent; where it leaves nobody busy, the builds tell what the index is. -/
theorem CacheInv.goto (h : CacheInv s) (hcore : CoreInv (s.goto i c).core)
    (hc : CallOk (s.complete s.stands) s.index c)
    (hst : s.settled = true → c.stage = .out ∨ c.stage = .pending) : CacheInv (s.goto i c) := by
  refine ⟨h.caches, h.cached, fun j => ?_, fun hset j => ?_, fun hset hready => ?_⟩
  · unfold QuerySystem.goto
    by_cases hj : j = i
    · subst hj
      simp only [Function.update_self]
      exact hc
    · simp only [Function.update_of_ne hj]
      exact h.calls j
  · rcases settled_goto hset with hs | hout
    · unfold QuerySystem.goto
      by_cases hj : j = i
      · subst hj
        simp only [Function.update_self]
        exact hst hs
      · simp only [Function.update_of_ne hj]
        exact h.outside hs j
    · exact .inl (hout j)
  · rcases settled_goto hset with hs | hout
    · exact h.index hs hready
    · obtain ⟨hstands, hindex⟩ := quiet_index hcore hout
      rw [show (s.goto i c).stands = (s.goto i c).inodes from hstands]
      exact hindex hready

/-- An agent inside a build, or behind it, unsettles. -/
theorem CacheInv.unsettled (h : CacheInv s) (hout : (s.calls i).stage ≠ .out)
    (hpending : (s.calls i).stage ≠ .pending) : s.settled = false := by
  rw [← Bool.not_eq_true]
  intro hs
  exact (h.outside hs i).elim hout hpending

/-- A build that begins unsettles. -/
theorem CacheInv.unsettle (h : CacheInv s) : CacheInv { s with settled := false } where
  caches := h.caches
  cached := h.cached
  calls := h.calls
  outside hs := by cases hs
  index hs := by cases hs

/-- The index may change while nothing is settled, if it stays ready. -/
theorem CacheInv.setIndex (h : CacheInv s) (hset : s.settled = false) {x : AgentFileIndex}
    (r : Option Slot) (hr : s.index.ready = true → x.ready = true) :
    CacheInv { s with index := x, root := r } where
  caches := h.caches
  cached k hk := hr (h.cached k hk)
  calls j := (h.calls j).mono hr
  outside hs := absurd hs (by simp [hset])
  index hs := absurd hs (by simp [hset])

theorem fileIndexVisit_ready {m : ℕ → FileInode} {x : AgentFileIndex} {f : ℕ × List UInt8} :
    (fileIndexVisit m x f).ready = x.ready := by
  unfold fileIndexVisit fileCacheUpsert
  dsimp only
  split <;> rfl

/-- Is an answer about to be stored? -/
def QueryCall.storing : QueryCall → Bool
  | .store _ _ _ => true
  | _ => false

/-- Does this agent look up a query that the cache holds? -/
def QuerySystem.hits (s : QuerySystem) (i : Slot) : Bool :=
  match s.calls i with
  | .lookup params => (sharedQueryCacheLookup s.caches (s.agents i) params).2.isSome
  | _ => false

/-- Does this agent evaluate a query that parses? -/
def QuerySystem.parses (s : QuerySystem) (i : Slot) : Bool :=
  match s.calls i with
  | .evaluate params => (fileQueryParse params).isSome
  | _ => false

/-- **A query evaluates, or hits the cache, only if no build has begun since no agent was inside
an index build or had a change that no version stands for; and no version is set between the
evaluation of a query and its store.** -/
def QueriesAlone (s : QuerySystem) : QueryLabel → Prop
  | .lookup i page => (page && s.hits i) = true → s.settled = true
  | .evaluate i _ => s.parses i = true → s.settled = true
  | .bump _ => (∀ j, (s.calls j).storing = false) ∧ s.caches.version + 1 < 2 ^ 64
  | _ => True

instance (s : QuerySystem) (a : QueryLabel) : Decidable (QueriesAlone s a) := by
  unfold QueriesAlone
  cases a <;> infer_instance

/-- The entries of the current version answer from the complete index of the metadata that it
stands for. -/
def QuerySystem.CacheCurrent (s : QuerySystem) : Prop :=
  ∀ k, (s.caches.entries k).used = true → (s.caches.entries k).version = s.caches.version →
    Answers (s.complete s.stands) (s.caches.entries k).query (s.caches.entries k).result

/-- What a lookup hits is an answer from the index, which is the complete index of the metadata
of the version: of the metadata at that moment, if no agent is busy. -/
def QuerySystem.HitsFresh (s : QuerySystem) : Prop :=
  ∀ i page t result, QueriesAlone s (.lookup i page) →
    queryMachine.next s (.lookup i page) = some t → t.calls i = .returned agentToolOk result →
    s.index = s.complete s.stands ∧ ((∀ j, (s.calls j).busy = false) → s.stands = s.inodes) ∧
      ∃ params base owner refcnt, s.calls i = .lookup params ∧ Answers s.index params base ∧
        result = queryResultWithCache base 1 owner refcnt s.caches.version 0

/-- A lookup answers from the cache or goes on to the evaluation; of the entries only the use
counts move. -/
theorem cacheInv_lookup {page : Bool} (hb' : CoreInv t.core) (h : CacheInv s)
    (ht : queryMachine.next s (.lookup i page) = some t) : CacheInv t := by
  simp only [queryMachine, QuerySystem.next] at ht
  split at ht <;> [skip; cases ht]
  rename_i params hc
  have hi := h.calls i
  rw [hc] at hi
  split at ht
  · split at ht
    · cases ht
      have hcaches : CacheInv { s with
          caches := (sharedQueryCacheLookup s.caches (s.agents i) params).1 } := by
        refine ⟨h.caches.lookup, fun k hk => ?_, h.calls, h.outside, h.index⟩
        obtain ⟨n, hn⟩ := (lookup_entries s.caches (s.agents i) params).2 k
        dsimp only at hk
        rw [hn] at hk
        exact h.cached k hk
      exact hcaches.goto hb' (hi.through (Or.inr rfl) (by simp) (by simp)) fun _ => .inl rfl
    · cases ht
      exact h.goto hb' (hi.through (Or.inl rfl) (by simp) (by simp)) fun _ => .inl rfl
  · cases ht
    exact h.goto hb' (hi.through (Or.inr rfl) (by simp) (by simp)) fun _ => .inl rfl

/-- A build begins: nothing is settled until it ends. -/
theorem cacheInv_clear (hb' : CoreInv t.core) (h : CacheInv s)
    (ht : queryMachine.next s (.clear i) = some t) : CacheInv t := by
  simp only [queryMachine, QuerySystem.next] at ht
  split at ht <;> [skip; cases ht]
  rename_i c hc
  have hi := h.calls i
  rw [hc] at hi
  split at ht <;> [skip; cases ht]
  cases ht
  have hr : s.index.ready = true → (fileIndexClear s.index).ready = true := id
  refine (h.unsettle.setIndex rfl (some i) hr).goto hb'
    ((hi.mono hr).through ?_ (by simp) (by simp)) fun hs => by cases hs
  cases c <;> exact Or.inl rfl

/-- A build reads one file into the index. -/
theorem cacheInv_visit (hb' : CoreInv t.core) (h : CacheInv s)
    (ht : queryMachine.next s (.visit i) = some t) : CacheInv t := by
  simp only [queryMachine, QuerySystem.next] at ht
  split at ht <;> [skip; cases ht]
  rename_i c n hc
  have hi := h.calls i
  rw [hc] at hi
  split at ht <;> [skip; cases ht]
  rename_i f hf
  cases ht
  have hr : s.index.ready = true → (fileIndexVisit s.inodes s.index f).ready = true :=
    fun hr => fileIndexVisit_ready.trans hr
  have hset := h.unsettled (i := i) (by simp [hc, QueryCall.stage])
    (by simp [hc, QueryCall.stage])
  refine (h.setIndex hset s.root hr).goto hb' ((hi.mono hr).through ?_ (by simp) (by simp))
    fun hs => absurd hs (by simp [hset])
  cases c <;> exact Or.inl rfl

/-- A build has read every file. -/
theorem cacheInv_walked (hb' : CoreInv t.core) (h : CacheInv s)
    (ht : queryMachine.next s (.walked i) = some t) : CacheInv t := by
  simp only [queryMachine, QuerySystem.next] at ht
  split at ht <;> [skip; cases ht]
  rename_i c n hc
  have hi := h.calls i
  rw [hc] at hi
  split at ht <;> [skip; cases ht]
  cases ht
  have hset := h.unsettled (i := i) (by simp [hc, QueryCall.stage])
    (by simp [hc, QueryCall.stage])
  refine (h.setIndex hset none id).goto hb' (hi.through ?_ (by simp) (by simp))
    fun hs => absurd hs (by simp [hset])
  cases c <;> exact Or.inl rfl

/-- A build ends: the index is ready, and what its own query needs holds again. -/
theorem cacheInv_finish (hb' : CoreInv t.core) (h : CacheInv s)
    (ht : queryMachine.next s (.finish i) = some t) : CacheInv t := by
  simp only [queryMachine, QuerySystem.next] at ht
  split at ht <;> [skip; cases ht]
  rename_i c hc
  have hi := h.calls i
  rw [hc] at hi
  cases ht
  have hr : (fileIndexFinish s.index).ready = true := rfl
  have hset := h.unsettled (i := i) (by simp [hc, QueryCall.stage])
    (by simp [hc, QueryCall.stage])
  refine (h.setIndex hset s.root fun _ => hr).goto hb' ⟨fun p hp => ?_, fun _ _ => hr, ?_⟩
    fun hs => absurd hs (by simp [hset])
  · cases c with
    | query params => exact hi.params p hp
    | update => cases hp
  · intro p buf n hc'
    cases c <;> cases hc'

/-- An evaluation reads the complete index of what the version stands for. -/
theorem cacheInv_evaluate {ticksCost : ℕ} (hb' : CoreInv t.core) (h : CacheInv s)
    (hu : QueriesAlone s (.evaluate i ticksCost))
    (ht : queryMachine.next s (.evaluate i ticksCost) = some t) : CacheInv t := by
  simp only [queryMachine, QuerySystem.next] at ht
  split at ht <;> [skip; cases ht]
  rename_i params hc
  have hi := h.calls i
  rw [hc] at hi
  split at ht
  · cases ht
    exact h.goto hb' (hi.through (Or.inr rfl) (by simp) (by simp)) fun _ => .inl rfl
  · rename_i q hq
    simp only [Option.map_eq_some_iff] at ht
    obtain ⟨r, hr, rfl⟩ := ht
    -- things are settled, so the index is the complete one of what the version stands for
    have hparses : s.parses i = true := by simp [QuerySystem.parses, hc, hq]
    have hready := hi.evaluate params rfl
    have hfull := h.index (hu hparses) hready
    refine h.goto hb' ⟨hi.params, fun p hp => ?_, fun p buf n hs => ?_⟩ fun _ => .inl rfl
    · cases hp
    · cases hs
      rw [← hfull]
      exact ⟨hready, q, r, ticksCost, hq, hr, rfl⟩

/-- A store puts the answer of an evaluation under the current version. -/
theorem cacheInv_store (hb' : CoreInv t.core) (h : CacheInv s)
    (ht : queryMachine.next s (.store i) = some t) : CacheInv t := by
  simp only [queryMachine, QuerySystem.next] at ht
  split at ht <;> [skip; cases ht]
  rename_i params buf full hc
  have hi := h.calls i
  rw [hc] at hi
  cases ht
  obtain ⟨hready, hans⟩ := hi.store params buf full rfl
  have hcaches : CacheInv { s with
      caches := sharedQueryCacheStore s.caches (s.agents i) params buf } :=
    ⟨h.caches.store (hi.params params rfl) hans, fun _ _ => hready, h.calls, h.outside, h.index⟩
  exact hcaches.goto hb' (hi.through (Or.inr rfl) (by simp) (by simp)) fun _ => .inl rfl

/-- A change of a file leaves cache and version alone. -/
theorem cacheInv_change {inum : ℕ} {c : MetaChange} (hb' : CoreInv t.core) (h : CacheInv s)
    (ht : queryMachine.next s (.change i inum c) = some t) : CacheInv t := by
  simp only [queryMachine, QuerySystem.next] at ht
  split at ht <;> [skip; cases ht]
  have hi := h.calls i
  split at ht
  · cases ht
    exact h.goto hb' (hi.through (Or.inr rfl) (by simp) (by simp)) fun _ => .inl rfl
  · rename_i ip _
    cases ht
    have hx : CacheInv { s with inodes := Function.update s.inodes inum ip } :=
      ⟨h.caches, h.cached, h.calls, h.outside, h.index⟩
    exact hx.goto hb' (hi.through (Or.inr rfl) (by simp) (by simp)) fun _ => .inr rfl

/-- A new version: no entry is current, and no call holds an answer of the version before. -/
theorem cacheInv_bump (hb' : CoreInv t.core) (h : CacheInv s)
    (hu : QueriesAlone s (.bump i))
    (ht : queryMachine.next s (.bump i) = some t) : CacheInv t := by
  simp only [queryMachine, QuerySystem.next] at ht
  split at ht <;> [skip; cases ht]
  rename_i hc
  cases ht
  obtain ⟨hnostore, hv⟩ := hu
  have hset := h.unsettled (i := i) (by simp [hc, QueryCall.stage])
    (by simp [hc, QueryCall.stage])
  have hx : CacheInv { s with
      caches := agentFileVersionBump s.caches, stands := s.inodes } := by
    refine ⟨h.caches.bump hv, h.cached, fun j => ?_, h.outside,
      fun hs => absurd hs (by simp [hset])⟩
    refine ⟨(h.calls j).params, (h.calls j).evaluate, fun p buf n hs => ?_⟩
    have hj := hnostore j
    rw [show s.calls j = _ from hs] at hj
    cases hj
  exact hx.goto hb' ((hx.calls i).through (Or.inr rfl) (by simp) (by simp)) fun _ => .inl rfl

/-- A step keeps the invariant of the cache. -/
theorem cacheInv_step (hb : CoreInv s.core) (h : CacheInv s) (hu : QueriesAlone s a)
    (ht : queryMachine.next s a = some t) : CacheInv t := by
  have hb' := coreInv_step hb (step_core ht)
  cases a with
  | query i params pages =>
    simp only [queryMachine, QuerySystem.next] at ht
    split at ht <;> [skip; cases ht]
    split at ht
    · cases ht
      refine h.goto hb' ⟨fun p hp => ?_, fun p hc => ?_, fun p buf n hc => ?_⟩ fun _ => .inl rfl
      · cases hp
        exact safestrcpy_idem params agentToolParamMax
      · cases hc
      · cases hc
    · cases ht
      exact h.goto hb' ((h.calls i).through (Or.inr rfl) (by simp) (by simp)) fun _ => .inl rfl
  | lookup i page => exact cacheInv_lookup hb' h ht
  | ensure i =>
    simp only [queryMachine, QuerySystem.next] at ht
    split at ht <;> [skip; cases ht]
    rename_i params hc
    have hi := h.calls i
    rw [hc] at hi
    cases ht
    refine h.goto hb' ?_ fun _ => .inl (by split <;> rfl)
    split
    · rename_i hr
      exact ⟨hi.params, fun _ _ => hr, fun p buf n hc' => by cases hc'⟩
    · exact hi.through (Or.inl rfl) (by simp) (by simp)
  | clear i => exact cacheInv_clear hb' h ht
  | visit i => exact cacheInv_visit hb' h ht
  | walked i => exact cacheInv_walked hb' h ht
  | finish i => exact cacheInv_finish hb' h ht
  | evaluate i ticksCost => exact cacheInv_evaluate hb' h hu ht
  | store i => exact cacheInv_store hb' h ht
  | answer i =>
    simp only [queryMachine, QuerySystem.next] at ht
    split at ht <;> [skip; cases ht]
    rename_i buf full hc
    have hi := h.calls i
    cases ht
    exact h.goto hb' (hi.through (Or.inr rfl) (by simp) (by simp)) fun _ => .inl rfl
  | change i inum c => exact cacheInv_change hb' h ht
  | bump i => exact cacheInv_bump hb' h hu ht
  | sysret i =>
    simp only [queryMachine, QuerySystem.next] at ht
    split at ht <;> [skip; cases ht]
    have hi := h.calls i
    cases ht
    exact h.goto hb' (hi.through (Or.inr rfl) (by simp) (by simp)) fun _ => .inl rfl
  | other i p =>
    cases ht
    exact ⟨h.caches, h.cached, h.calls, h.outside, h.index⟩

theorem coreInv_init (h : s.init) : CoreInv s.core := by
  obtain ⟨hindex, _, hr, hst, -, hcalls⟩ := h
  have hout : ∀ i, s.core.stage i = .out := fun i => core_stage (hcalls i)
  have hready : s.core.index.ready = false := by
    change s.index.ready = false
    rw [hindex]
    rfl
  refine ⟨fun i => ?_, fun i c n hi => ?_, fun _ _ hor => ?_, fun _ _ hy => ?_, fun _ => hst⟩
  · refine iff_of_false (fun he => ?_) ?_
    · cases hr.symm.trans he
    · rintro ⟨c, n, hi⟩
      cases (hout i).symm.trans hi
  · cases (hout i).symm.trans hi
  · rcases hor with hy | ⟨i, c, hi⟩
    · cases hready.symm.trans hy
    · cases (hout i).symm.trans hi
  · cases hready.symm.trans hy

theorem cacheInv_init (h : s.init) : CacheInv s := by
  obtain ⟨hindex, hc, _, _, _, hcalls⟩ := h
  have hunused : ∀ k, (s.caches.entries k).used = true → False := by
    intro k hk
    rw [hc] at hk
    cases hk
  refine ⟨⟨fun k hk => (hunused k hk).elim, fun k hk => (hunused k hk).elim⟩,
    fun k hk => (hunused k hk).elim, fun i => ?_, fun _ i => ?_, fun _ hready => ?_⟩
  · rw [hcalls i]
    refine ⟨fun p hp => ?_, fun p hp => ?_, fun p buf n hp => ?_⟩
    all_goals cases hp
  · rw [hcalls i]
    exact .inl rfl
  · rw [hindex] at hready
    cases hready

/-- Both invariants hold along every run without disturbance. -/
theorem reach_caches {tr : List QueryLabel} (h : queryMachine.Reach QueriesAlone tr s) :
    CoreInv s.core ∧ CacheInv s := by
  refine Reach.inv (P := fun s => CoreInv s.core ∧ CacheInv s) ?_ ?_ h
  · intro s hs
    exact ⟨coreInv_init hs, cacheInv_init hs⟩
  · intro s a t hs hu ht
    exact ⟨coreInv_step hs.1 (step_core ht), cacheInv_step hs.1 hs.2 hu ht⟩

end

/-! ### An update between evaluation and store -/

/-- What a text begins with, it begins with when more is put behind it. -/
theorem resultPuts_starts {l buf : List UInt8} (text : List UInt8) (h : l <+: buf)
    (hl : l.length < agentToolResultMax) : l <+: resultPuts buf text := by
  unfold resultPuts
  refine List.prefix_take_iff.2 ⟨h.trans (List.prefix_append ..), ?_⟩
  omega

theorem queryAnswer_starts {l : List UInt8} {s : QueryState} (usedIndex forceScan : Bool)
    (full ticksCost : ℕ) (h : l <+: s.buf) (hl : l.length < agentToolResultMax) :
    l <+: queryAnswer s usedIndex forceScan full ticksCost := by
  unfold queryAnswer resultPutu
  repeat refine resultPuts_starts _ ?_ hl
  exact h

theorem safestrcpy_starts {l text : List UInt8} (h : l <+: text) (hz : ∀ b ∈ l, b ≠ 0)
    (hl : l.length < agentToolResultMax) : l <+: safestrcpy text agentToolResultMax := by
  obtain ⟨rest, rfl⟩ := h
  unfold safestrcpy cstr
  rw [List.takeWhile_append_of_pos (by simpa using hz)]
  refine List.prefix_take_iff.2 ⟨List.prefix_append .., ?_⟩
  omega

/-- One file, with no attribute yet, and agents of one group. -/
def shareStart : QuerySystem where
  agents := fun _ => { Proc.boot with ident := { Ident.init with agentGroup := 1 } }
  walk := [(2, lit "a")]
  inodes := fun _ => FileInode.zero
  index := AgentFileIndex.init
  caches := QueryCaches.init
  root := none
  calls := fun _ => .user
  stands := fun _ => FileInode.zero
  settled := true

theorem shareStart_init : queryMachine.init shareStart := ⟨rfl, rfl, rfl, rfl, rfl, fun _ => rfl⟩

def ownerQuery : List UInt8 := lit "owner=a;mode=scan"

/-- The first query builds the index and evaluates. -/
def firstQuery : List QueryLabel :=
  [.query 0 ownerQuery true, .lookup 0 true, .ensure 0, .clear 0, .visit 0, .walked 0, .finish 0,
    .evaluate 0 0]

/-- Another agent gives the file an owner. -/
def ownerChange : List QueryLabel :=
  [.change 1 2 (.setAttr (lit "owner") (lit "a")), .clear 1, .visit 1, .walked 1, .finish 1,
    .bump 1]

/-- Two agents query at the same time before there is an index; then a change, the query again
while a next change is on its way to the index, and a third agent before its lookup, which hits. -/
def sharedRun : List QueryLabel :=
  [.query 3 ownerQuery true, .lookup 3 true, .ensure 3] ++ firstQuery ++
    [.clear 3, .store 0, .answer 0, .sysret 0, .visit 3, .walked 3, .finish 3, .evaluate 3 0,
      .store 3, .answer 3, .sysret 3] ++ ownerChange ++
    [.change 4 2 (.delAttr (lit "owner")), .query 0 ownerQuery true, .lookup 0 true, .ensure 0,
      .evaluate 0 0, .store 0, .query 2 ownerQuery true]

/-- The change falls between the evaluation of the query and its store. -/
def staleRun : List QueryLabel := firstQuery ++ ownerChange ++ [.store 0]

def staleEnd : QuerySystem := (queryMachine.run shareStart staleRun).getD shareStart

end AgentOS
