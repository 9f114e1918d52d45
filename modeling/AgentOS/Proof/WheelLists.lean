import AgentOS.Lib.Chain
import AgentOS.Proof.Wheel

/-!
# The lists of the heartbeat wheel

* `WheelLists k f`: bucket `b` of the wheel is the list `f b`, and a process is on the list that its
  record names.
* `Relinks`: a section that changes links and activity only.
* `remove_spec`, `insert_spec`: the removal ends, and takes the process off; the insertion ends, and
  the process is on the wheel if it has a heartbeat, in the bucket of its deadline.
* `detach_spec`: `agent_tick` takes a whole bucket off.
-/

namespace AgentOS

/-- The successor of a process on its list. -/
def Kernel.wheelLinks (k : Kernel) (j : Slot) : Option Slot :=
  agentWheelProc (k.procs j).hb.heartbeatWheelNext

/-- **The lists of the wheel.** -/
structure WheelLists (k : Kernel) (f : Fin agentHeartbeatWheelBuckets → List Slot) : Prop where
  linked : ∀ b,
    Chain.Linked k.wheelLinks (agentWheelProc (k.agentGlobal.heartbeatWheelHeads b)) (f b)
  mem : ∀ b i, i ∈ f b ↔ (k.procs i).hb.heartbeatWheelActive = true ∧
    (k.procs i).hb.heartbeatWheelBucket = (b : ℕ)

/-- A section that changes links and activity only. -/
structure Relinks (k k' : Kernel) : Prop where
  frame : WheelFrame k k'
  interval : ∀ j, (k'.procs j).hb.heartbeatInterval = (k.procs j).hb.heartbeatInterval
  deadline : ∀ j, (k'.procs j).hb.heartbeatDeadline = (k.procs j).hb.heartbeatDeadline

/-- Process `j` is on the wheel as before. -/
def SameLink (k k' : Kernel) (j : Slot) : Prop :=
  (k'.procs j).hb.heartbeatWheelActive = (k.procs j).hb.heartbeatWheelActive ∧
    (k'.procs j).hb.heartbeatWheelBucket = (k.procs j).hb.heartbeatWheelBucket

section

variable {k k' k'' : Kernel} {i j q : Slot} {b bucket : Fin agentHeartbeatWheelBuckets}
  {f : Fin agentHeartbeatWheelBuckets → List Slot} {hb : Heartbeat} {g : AgentGlobal}

/-! ### Indices -/

@[simp] theorem agentWheelProc_index (i : Slot) :
    agentWheelProc (agentProcWheelIndex i) = some i := by
  unfold agentWheelProc agentProcWheelIndex
  rw [dif_pos ⟨by omega, by omega⟩]
  simp

theorem agentWheelProc_some {x : ℕ} (h : agentWheelProc x = some i) : x = agentProcWheelIndex i := by
  unfold agentWheelProc at h
  split at h
  · cases h
    unfold agentProcWheelIndex
    simp only
    omega
  · cases h

theorem index_ne_zero (i : Slot) : agentProcWheelIndex i ≠ 0 := by
  unfold agentProcWheelIndex
  omega

theorem index_inj (h : agentProcWheelIndex i = agentProcWheelIndex j) : i = j := by
  have e := congrArg agentWheelProc h
  simpa using e

/-! ### Stores in heartbeat records -/

theorem setHb_self (k : Kernel) (i : Slot) (hb : Heartbeat) : ((k.setHb i hb).procs i).hb = hb := by
  simp [Kernel.setHb]

theorem setHb_ne (h : j ≠ i) : (k.setHb i hb).procs j = k.procs j := Kernel.setProc_ne _ _ _ _ h

theorem Relinks.refl (k : Kernel) : Relinks k k := ⟨WheelFrame.refl k, fun _ => rfl, fun _ => rfl⟩

theorem Relinks.trans (h : Relinks k k') (h' : Relinks k' k'') : Relinks k k'' where
  frame := h.frame.trans h'.frame
  interval j := (h'.interval j).trans (h.interval j)
  deadline j := (h'.deadline j).trans (h.deadline j)

theorem relinks_setGlobal (k : Kernel) (g : AgentGlobal) : Relinks k (k.setGlobal g) :=
  ⟨wheelFrame_setGlobal k g, fun _ => rfl, fun _ => rfl⟩

theorem relinks_setHb (hi : hb.heartbeatInterval = (k.procs i).hb.heartbeatInterval)
    (hd : hb.heartbeatDeadline = (k.procs i).hb.heartbeatDeadline) : Relinks k (k.setHb i hb) := by
  refine ⟨wheelFrame_setHb k i hb, ?_, ?_⟩ <;> intro j <;> by_cases hj : j = i
  · subst hj
    rw [setHb_self, hi]
  · rw [setHb_ne hj]
  · subst hj
    rw [setHb_self, hd]
  · rw [setHb_ne hj]

theorem SameLink.refl (k : Kernel) (j : Slot) : SameLink k k j := ⟨rfl, rfl⟩

theorem SameLink.trans (h : SameLink k k' j) (h' : SameLink k' k'' j) : SameLink k k'' j :=
  ⟨h'.1.trans h.1, h'.2.trans h.2⟩

/-- A record with a heartbeat still has one. -/
theorem Relinks.on (h : Relinks k k') (j : Slot) :
    heartbeatOn (k'.procs j) ↔ heartbeatOn (k.procs j) := by
  obtain ⟨hb, e⟩ := h.frame.2 j
  have hi := h.interval j
  have hd := h.deadline j
  unfold heartbeatOn
  rw [hi, hd, e]

/-- The lists depend on heads, links, activity and buckets only. -/
theorem WheelLists.congr (h : WheelLists k f)
    (hheads : k'.agentGlobal.heartbeatWheelHeads = k.agentGlobal.heartbeatWheelHeads)
    (hlinks : ∀ j, (k'.procs j).hb.heartbeatWheelNext = (k.procs j).hb.heartbeatWheelNext)
    (hsame : ∀ j, SameLink k k' j) : WheelLists k' f := by
  have hl : k'.wheelLinks = k.wheelLinks := by
    funext j
    unfold Kernel.wheelLinks
    rw [hlinks]
  refine ⟨fun b => ?_, fun b j => ?_⟩
  · rw [hl, hheads]
    exact h.linked b
  · rw [h.mem, (hsame j).1, (hsame j).2]

/-- A process is on one list at most. -/
theorem WheelLists.bucket_eq (h : WheelLists k f) (hb : i ∈ f b) (hb' : i ∈ f bucket) : b = bucket := by
  have e := ((h.mem b i).1 hb).2.symm.trans ((h.mem bucket i).1 hb').2
  exact Fin.ext (by exact_mod_cast e)

theorem WheelLists.length (h : WheelLists k f) (b : Fin agentHeartbeatWheelBuckets) :
    (f b).length ≤ nproc := by
  have hl := (h.linked b).length_le
  rwa [Fintype.card_fin] at hl

/-! ### Removal -/

/-- The index of the process before. -/
def prevIndex : Option Slot → ℕ
  | none => 0
  | some q => agentProcWheelIndex q

/-- Process `i` of the list of `bucket` is passed over by the one before it, or by the head. -/
def unlinkAt (k : Kernel) (bucket : Fin agentHeartbeatWheelBuckets) (i : Slot) :
    Option Slot → Kernel
  | none => k.setGlobal
      (k.agentGlobal.setHead bucket (k.procs i).hb.heartbeatWheelNext).countDown
  | some q => (k.setGlobal k.agentGlobal.countDown).setHb q
      { (k.procs q).hb with heartbeatWheelNext := (k.procs i).hb.heartbeatWheelNext }

/-- The loop of the removal stops at the process. -/
theorem removeLoop_spec {a c : List Slot} {fuel : ℕ} : ∀ (pre : Option Slot) (current : ℕ),
    Chain.Linked k.wheelLinks (agentWheelProc current) (a ++ i :: c) → i ∉ a → a.length < fuel →
      wheelRemoveLoop k bucket (agentProcWheelIndex i) fuel (prevIndex pre) current =
        some (unlinkAt k bucket i (a.getLast?.or pre)) := by
  -- induction on the slots in front of `i`; `pre` is the one the loop comes from
  induction a generalizing fuel with
  | nil =>
    intro pre current h _ hf
    obtain ⟨fuel, rfl⟩ : ∃ n, fuel = n + 1 := ⟨fuel - 1, by simp at hf; omega⟩
    have hc : current = agentProcWheelIndex i := agentWheelProc_some h.head
    subst hc
    have hnext : k.wheelNext (agentProcWheelIndex i) = (k.procs i).hb.heartbeatWheelNext := by
      unfold Kernel.wheelNext
      rw [agentWheelProc_index]
    unfold wheelRemoveLoop
    rw [if_neg (index_ne_zero i)]
    dsimp only
    rw [if_pos rfl, hnext]
    cases pre with
    | none => rw [if_pos (show prevIndex none = 0 from rfl)]; rfl
    | some q =>
      rw [if_neg (show prevIndex (some q) ≠ 0 from index_ne_zero q)]
      have hq : agentWheelProc (prevIndex (some q)) = some q := agentWheelProc_index q
      rw [hq]
      rfl
  | cons j a ih =>
    intro pre current h hi hf
    obtain ⟨fuel, rfl⟩ : ∃ n, fuel = n + 1 := ⟨fuel - 1, by simp at hf; omega⟩
    have hc : current = agentProcWheelIndex j := agentWheelProc_some h.head
    subst hc
    have hji : agentProcWheelIndex j ≠ agentProcWheelIndex i := by
      intro he
      exact hi (by simp [index_inj he])
    have hnext : k.wheelNext (agentProcWheelIndex j) = (k.procs j).hb.heartbeatWheelNext := by
      unfold Kernel.wheelNext
      rw [agentWheelProc_index]
    unfold wheelRemoveLoop
    rw [if_neg (index_ne_zero j)]
    dsimp only
    rw [if_neg hji, hnext]
    rw [agentWheelProc_index, List.cons_append] at h
    have htail : Chain.Linked k.wheelLinks (k.wheelLinks j) (a ++ i :: c) := by
      cases h with
      | cons h => exact h
    have hfuel : a.length < fuel := by simpa using hf
    have hrec := ih (some j) (k.procs j).hb.heartbeatWheelNext htail
      (fun hmem => hi (List.mem_cons_of_mem _ hmem)) hfuel
    refine hrec.trans ?_
    cases a <;> simp [List.getLast?_cons]

theorem unlinkAt_relinks (k : Kernel) (bucket : Fin agentHeartbeatWheelBuckets) (i : Slot)
    (pre : Option Slot) : Relinks k (unlinkAt k bucket i pre) := by
  cases pre with
  | none => exact relinks_setGlobal k _
  | some q => exact (relinks_setGlobal k _).trans (relinks_setHb rfl rfl)

theorem unlinkAt_same (k : Kernel) (bucket : Fin agentHeartbeatWheelBuckets) (i : Slot)
    (pre : Option Slot) (j : Slot) : SameLink k (unlinkAt k bucket i pre) j := by
  cases pre with
  | none => exact SameLink.refl k j
  | some q =>
    by_cases hj : j = q
    · subst hj
      unfold SameLink unlinkAt
      rw [setHb_self]
      exact ⟨rfl, rfl⟩
    · unfold SameLink unlinkAt
      rw [setHb_ne hj]
      exact ⟨rfl, rfl⟩

theorem unlinkAt_links (k : Kernel) (bucket : Fin agentHeartbeatWheelBuckets) (i q : Slot) :
    (unlinkAt k bucket i (some q)).wheelLinks =
      Function.update k.wheelLinks q (k.wheelLinks i) := by
  funext j
  by_cases hj : j = q
  · subst hj
    rw [Function.update_self]
    unfold Kernel.wheelLinks unlinkAt
    rw [setHb_self]
  · rw [Function.update_of_ne hj]
    unfold Kernel.wheelLinks unlinkAt
    rw [setHb_ne hj]
    rfl

/-- The lists once the process has been passed over and its record cleared. -/
theorem unlinked_linked (h : WheelLists k f) {a c : List Slot} (hf : f bucket = a ++ i :: c)
    (b : Fin agentHeartbeatWheelBuckets) :
    Chain.Linked (Function.update (unlinkAt k bucket i a.getLast?).wheelLinks i none)
      (agentWheelProc ((unlinkAt k bucket i a.getLast?).agentGlobal.heartbeatWheelHeads b))
      ((f b).erase i) := by
  have hlist := h.linked bucket
  rw [hf] at hlist
  have hnd := hlist.nodup
  have hia : i ∉ a := fun hi => by simp [List.nodup_append] at hnd; exact (hnd.2.2 i hi).1 rfl
  have hic : i ∉ c := fun hi => by simp [List.nodup_append] at hnd; exact hnd.2.1.1 hi
  have hother : b ≠ bucket → ∀ x, x ∈ a ∨ x = i → x ∉ f b := by
    intro hb x hx hxb
    refine hb (h.bucket_eq hxb ?_)
    rw [hf]
    rcases hx with hx | rfl
    · exact List.mem_append_left _ hx
    · simp
  rcases List.eq_nil_or_concat a with rfl | ⟨a', q, rfl⟩
  · -- the first of its list: the head passes it over
    simp only [List.getLast?_nil, List.nil_append] at hlist hf ⊢
    change Chain.Linked (Function.update k.wheelLinks i none) (agentWheelProc (Function.update
      k.agentGlobal.heartbeatWheelHeads bucket (k.procs i).hb.heartbeatWheelNext b)) _
    by_cases hb : b = bucket
    · subst hb
      rw [hf, List.erase_cons_head, Function.update_self]
      have htail : Chain.Linked k.wheelLinks (k.wheelLinks i) c := by
        generalize hs : agentWheelProc (k.agentGlobal.heartbeatWheelHeads b) = s at hlist
        cases hlist with
        | cons ht => exact ht
      refine htail.frame fun x hx => ?_
      rw [Function.update_of_ne]
      rintro rfl
      exact hic hx
    · have hib := hother hb i (.inr rfl)
      rw [Function.update_of_ne hb, List.erase_of_not_mem hib]
      refine (h.linked b).frame fun x hx => ?_
      rw [Function.update_of_ne]
      rintro rfl
      exact hib hx
  · rw [List.concat_eq_append] at hf hlist hia hother ⊢
    simp only [List.getLast?_append, List.getLast?_singleton, Option.some_or]
    rw [unlinkAt_links]
    change Chain.Linked _ (agentWheelProc (k.agentGlobal.heartbeatWheelHeads b)) _
    have hqi : q ≠ i := fun e => hia (by simp [e])
    by_cases hb : b = bucket
    · subst hb
      rw [hf, List.erase_append_right _ hia, List.erase_cons_head, List.append_assoc]
      rw [List.append_assoc] at hlist
      have hrem := hlist.remove
      refine hrem.frame fun x hx => ?_
      rw [Function.update_of_ne]
      rintro rfl
      simp only [List.mem_append, List.mem_cons] at hx hia
      simp only [List.not_mem_nil, or_false, not_or] at hia
      rcases hx with hx | hx | hx
      · exact hia.1 hx
      · exact hqi hx.symm
      · exact hic hx
    · have hib := hother hb i (.inr rfl)
      have hqb := hother hb q (.inl (by simp))
      rw [List.erase_of_not_mem hib]
      refine (h.linked b).frame fun x hx => ?_
      rw [Function.update_of_ne, Function.update_of_ne]
      · rintro rfl
        exact hqb hx
      · rintro rfl
        exact hib hx

/-- A list without the process does not look at its link. -/
theorem linked_clear {l : List Slot} {head : Option Slot} (h : Chain.Linked k.wheelLinks head l)
    (hi : i ∉ l) : Chain.Linked (Function.update k.wheelLinks i none) head l := by
  refine h.frame fun x hx => ?_
  rw [Function.update_of_ne]
  rintro rfl
  exact hi hx

/-- The record of a process that its list passes over is cleared. -/
theorem unlink_lists (h : WheelLists k f) (hr : Relinks k k') (hs : ∀ j, SameLink k k' j)
    (hl : ∀ b, Chain.Linked (Function.update k'.wheelLinks i none)
      (agentWheelProc (k'.agentGlobal.heartbeatWheelHeads b)) ((f b).erase i)) :
    let k'' := k'.setHb i (k'.procs i).hb.unlink
    WheelLists k'' (fun b => (f b).erase i) ∧ Relinks k k'' ∧
      (k''.procs i).hb.heartbeatWheelActive = false ∧ ∀ j, j ≠ i → SameLink k k'' j := by
  intro k''
  have hself : (k''.procs i).hb = (k'.procs i).hb.unlink := setHb_self ..
  have hne : ∀ j, j ≠ i → k''.procs j = k'.procs j := fun j hj => setHb_ne hj
  have hlinks : k''.wheelLinks = Function.update k'.wheelLinks i none := by
    funext j
    unfold Kernel.wheelLinks
    by_cases hj : j = i
    · subst hj
      rw [Function.update_self, hself]
      rfl
    · rw [Function.update_of_ne hj, hne j hj]
  refine ⟨⟨fun b => ?_, fun b j => ?_⟩, hr.trans (relinks_setHb rfl rfl), ?_, fun j hj => ?_⟩
  · rw [hlinks]
    exact hl b
  · by_cases hj : j = i
    · subst hj
      rw [hself]
      have hnd := (h.linked b).nodup
      exact ⟨fun hm => absurd hm hnd.not_mem_erase, fun hm => absurd hm.1 (by simp [Heartbeat.unlink])⟩
    · rw [List.mem_erase_of_ne hj, h.mem, hne j hj, (hs j).1, (hs j).2]
  · rw [hself]
    rfl
  · unfold SameLink
    rw [hne j hj]
    exact hs j

/-- **The removal** ends, and takes the process off the wheel. -/
theorem remove_spec (h : WheelLists k f) (i : Slot) :
    ∃ k', agentHeartbeatWheelRemoveLocked k i = some k' ∧
      WheelLists k' (fun b => (f b).erase i) ∧ Relinks k k' ∧
      (k'.procs i).hb.heartbeatWheelActive = false ∧ ∀ j, j ≠ i → SameLink k k' j := by
  unfold agentHeartbeatWheelRemoveLocked
  dsimp only
  -- a process off the wheel is on no list
  by_cases hact : (k.procs i).hb.heartbeatWheelActive = false
  · have hno : (fun b => (f b).erase i) = f := by
      funext b
      refine List.erase_of_not_mem fun hi => ?_
      have hon := ((h.mem b i).1 hi).1
      rw [hact] at hon
      cases hon
    rw [if_pos hact, hno]
    exact ⟨k, rfl, h, Relinks.refl k, hact, fun j _ => SameLink.refl k j⟩
  rw [if_neg hact]
  by_cases hrange : 0 ≤ (k.procs i).hb.heartbeatWheelBucket ∧
      (k.procs i).hb.heartbeatWheelBucket < agentHeartbeatWheelBuckets
  · rw [dif_pos hrange]
    set bucket : Fin agentHeartbeatWheelBuckets :=
      ⟨(k.procs i).hb.heartbeatWheelBucket.toNat, by omega⟩ with hbucket
    have hmem : i ∈ f bucket := by
      refine (h.mem bucket i).2 ⟨by simpa using hact, ?_⟩
      rw [hbucket]
      exact (Int.toNat_of_nonneg hrange.1).symm
    obtain ⟨a, c, hf, hia⟩ := List.eq_append_cons_of_mem hmem
    have hlist := h.linked bucket
    rw [hf] at hlist
    have hlen := h.length bucket
    rw [hf] at hlen
    have hfuel : a.length < wheelFuel := by
      simp only [List.length_append, List.length_cons] at hlen
      unfold wheelFuel
      omega
    have hloop : wheelRemoveLoop k bucket (agentProcWheelIndex i) wheelFuel (prevIndex none)
        (k.agentGlobal.heartbeatWheelHeads bucket) =
          some (unlinkAt k bucket i (a.getLast?.or none)) := removeLoop_spec _ _ hlist hia hfuel
    rw [Option.or_none] at hloop
    refine ⟨_, by rw [show (0 : ℕ) = prevIndex none from rfl, hloop]; rfl, ?_⟩
    exact unlink_lists h (unlinkAt_relinks ..) (unlinkAt_same k bucket i _) (unlinked_linked h hf)
  · -- a record that names no bucket is on no list
    rw [dif_neg hrange]
    refine ⟨_, rfl, unlink_lists h (Relinks.refl k) (SameLink.refl k) fun b => ?_⟩
    have hib : i ∉ f b := by
      intro hi
      have hb := ((h.mem b i).1 hi).2
      exact hrange (by omega)
    rw [List.erase_of_not_mem hib]
    exact linked_clear (h.linked b) hib

/-! ### Insertion -/

/-- The link at the head of a bucket. -/
theorem link_spec (h : WheelLists k f) (hi : (k.procs i).hb.heartbeatWheelActive = false) :
    let b := wheelBucket (k.procs i).hb.heartbeatDeadline
    WheelLists (wheelLink k i) (Function.update f b (i :: f b)) ∧ Relinks k (wheelLink k i) ∧
      ((wheelLink k i).procs i).hb.heartbeatWheelActive = true ∧
      ((wheelLink k i).procs i).hb.heartbeatWheelBucket = (b : ℕ) ∧
      ∀ j, j ≠ i → SameLink k (wheelLink k i) j := by
  intro b
  have hno : ∀ b', i ∉ f b' := by
    intro b' hm
    have hon := ((h.mem b' i).1 hm).1
    rw [hi] at hon
    cases hon
  have hself : ((wheelLink k i).procs i).hb = { (k.procs i).hb with
      heartbeatWheelBucket := (b : ℕ)
      heartbeatWheelNext := k.agentGlobal.heartbeatWheelHeads b
      heartbeatWheelActive := true } := setHb_self ..
  have hne : ∀ j, j ≠ i → (wheelLink k i).procs j = k.procs j := fun j hj => setHb_ne hj
  have hheads : (wheelLink k i).agentGlobal.heartbeatWheelHeads =
      Function.update k.agentGlobal.heartbeatWheelHeads b (agentProcWheelIndex i) := rfl
  -- of the links only that of `i` changes: it goes to the old head
  have hlinks : (wheelLink k i).wheelLinks = Function.update k.wheelLinks i
      (agentWheelProc (k.agentGlobal.heartbeatWheelHeads b)) := by
    funext j
    unfold Kernel.wheelLinks
    by_cases hj : j = i
    · subst hj
      rw [Function.update_self, hself]
    · rw [Function.update_of_ne hj, hne j hj]
  have hrel : Relinks k (wheelLink k i) := by
    refine Relinks.trans ?_ (relinks_setGlobal _ _)
    exact relinks_setHb rfl rfl
  refine ⟨⟨fun b' => ?_, fun b' j => ?_⟩, hrel, by rw [hself], by rw [hself], fun j hj => ?_⟩
  · rw [hlinks, hheads]
    by_cases hb : b' = b
    · rw [hb, Function.update_self, Function.update_self, agentWheelProc_index]
      exact (h.linked b).push (hno b)
    · rw [Function.update_of_ne hb, Function.update_of_ne hb]
      refine (h.linked b').frame fun x hx => ?_
      rw [Function.update_of_ne]
      rintro rfl
      exact hno b' hx
  · by_cases hj : j = i
    · subst hj
      rw [hself]
      by_cases hb : b' = b
      · subst hb
        simp
      · rw [Function.update_of_ne hb]
        refine ⟨fun hm => absurd hm (hno b'), fun hm => absurd hm.2 ?_⟩
        intro he
        have hval : ((b : ℕ) : ℤ) = (b' : ℕ) := he
        exact hb (Fin.ext (by omega))
    · rw [hne j hj]
      by_cases hb : b' = b
      · subst hb
        rw [Function.update_self, List.mem_cons, h.mem]
        exact or_iff_right hj
      · rw [Function.update_of_ne hb, h.mem]
  · unfold SameLink
    rw [hne j hj]
    exact ⟨rfl, rfl⟩

/-- **The insertion** ends: the process is on the wheel if it has a heartbeat, in the bucket of its
deadline. -/
theorem insert_spec (h : WheelLists k f) (i : Slot) :
    ∃ k' f', agentHeartbeatWheelInsertLocked k i = some k' ∧ WheelLists k' f' ∧ Relinks k k' ∧
      ((k'.procs i).hb.heartbeatWheelActive = true ↔ heartbeatOn (k.procs i)) ∧
      ((k'.procs i).hb.heartbeatWheelActive = true →
        (k'.procs i).hb.heartbeatWheelBucket =
          (wheelBucket (k.procs i).hb.heartbeatDeadline : ℕ)) ∧
      ∀ j, j ≠ i → SameLink k k' j := by
  have hrem : ∃ k₁ f₁, (if (k.procs i).hb.heartbeatWheelActive then
      agentHeartbeatWheelRemoveLocked k i else some k) = some k₁ ∧ WheelLists k₁ f₁ ∧
      Relinks k k₁ ∧ (k₁.procs i).hb.heartbeatWheelActive = false ∧
      ∀ j, j ≠ i → SameLink k k₁ j := by
    by_cases hact : (k.procs i).hb.heartbeatWheelActive = true
    · rw [if_pos hact]
      obtain ⟨k₁, hk₁, hspec⟩ := remove_spec h i
      exact ⟨k₁, _, hk₁, hspec⟩
    · rw [if_neg hact]
      exact ⟨k, f, rfl, h, Relinks.refl k, by simpa using hact, fun j _ => SameLink.refl k j⟩
  obtain ⟨k₁, f₁, hk₁, hw₁, hr₁, hoff, hothers⟩ := hrem
  unfold agentHeartbeatWheelInsertLocked
  rw [hk₁, Option.map_some]
  by_cases hon : heartbeatOn (k₁.procs i)
  · rw [if_pos hon]
    obtain ⟨hw, hr, hact, hbucket, hs⟩ := link_spec hw₁ hoff
    refine ⟨_, _, rfl, hw, hr₁.trans hr, iff_of_true hact ((hr₁.on i).1 hon), fun _ => ?_,
      fun j hj => (hothers j hj).trans (hs j hj)⟩
    rw [hbucket, hr₁.deadline]
  · rw [if_neg hon]
    refine ⟨k₁, f₁, rfl, hw₁, hr₁, ?_, fun ha => ?_, hothers⟩
    · exact iff_of_false (by simp [hoff]) fun h => hon ((hr₁.on i).2 h)
    · rw [hoff] at ha
      cases ha

/-! ### A whole bucket -/

/-- The loop that marks the processes of a list as inactive. -/
theorem detachLoop_spec {l : List Slot} {fuel : ℕ} : ∀ (k : Kernel) (scan : ℕ),
    Chain.Linked k.wheelLinks (agentWheelProc scan) l → l.length + 1 < fuel →
      ∃ k', wheelDetachLoop k fuel scan = some k' ∧ Relinks k k' ∧
        k'.wheelLinks = k.wheelLinks ∧
        k'.agentGlobal.heartbeatWheelHeads = k.agentGlobal.heartbeatWheelHeads ∧
        (∀ j ∈ l, (k'.procs j).hb.heartbeatWheelActive = false) ∧
        ∀ j, j ∉ l → SameLink k k' j := by
  induction l generalizing fuel with
  | nil =>
    intro k scan h hf
    obtain ⟨fuel, rfl⟩ : ∃ n, fuel = n + 2 := ⟨fuel - 2, by simp at hf; omega⟩
    have hend : wheelDetachLoop k (fuel + 2) scan = some k := by
      unfold wheelDetachLoop
      by_cases hs : scan = 0
      · rw [if_pos hs]
      · rw [if_neg hs, h.head]
        rfl
    exact ⟨k, hend, Relinks.refl k, rfl, rfl, by simp, fun j _ => SameLink.refl k j⟩
  | cons j l ih =>
    intro k scan h hf
    obtain ⟨fuel, rfl⟩ : ∃ n, fuel = n + 1 := ⟨fuel - 1, by simp at hf; omega⟩
    have hnd := h.nodup
    have hscan : agentWheelProc scan = some j := h.head
    have hne : scan ≠ 0 := by
      rintro rfl
      cases hscan
    rw [hscan] at h
    have htail : Chain.Linked k.wheelLinks (k.wheelLinks j) l := by
      cases h with
      | cons ht => exact ht
    -- the stores of one round leave all links
    set k₁ : Kernel := (k.setHb j { (k.procs j).hb with
      heartbeatWheelActive := false, heartbeatWheelBucket := -1 }) with hk₁
    set k₂ : Kernel := k₁.setGlobal k₁.agentGlobal.countDown with hk₂
    have hself : (k₂.procs j).hb = { (k.procs j).hb with
        heartbeatWheelActive := false, heartbeatWheelBucket := -1 } := setHb_self ..
    have hother : ∀ x, x ≠ j → k₂.procs x = k.procs x := fun x hx => setHb_ne hx
    have hlinks : k₂.wheelLinks = k.wheelLinks := by
      funext x
      unfold Kernel.wheelLinks
      by_cases hx : x = j
      · subst hx
        rw [hself]
      · rw [hother x hx]
    have hrel : Relinks k k₂ := by
      refine Relinks.trans ?_ (relinks_setGlobal _ _)
      exact relinks_setHb rfl rfl
    have hfuel : l.length + 1 < fuel := by
      simp at hf
      omega
    obtain ⟨k', hk', hr, hl, hh, hoff, hsame⟩ := ih k₂ (k.procs j).hb.heartbeatWheelNext
      (by rw [hlinks]; exact htail) hfuel
    have hloop : wheelDetachLoop k (fuel + 1) scan = some k' := by
      rw [wheelDetachLoop.eq_2, if_neg hne, hscan]
      exact hk'
    refine ⟨k', hloop, hrel.trans hr, hl.trans hlinks, hh, ?_, ?_⟩
    · intro x hx
      rcases List.mem_cons.1 hx with rfl | hx
      · have hxl := (List.nodup_cons.1 hnd).1
        rw [(hsame x hxl).1, hself]
      · exact hoff x hx
    · intro x hx
      rw [List.mem_cons, not_or] at hx
      refine SameLink.trans ?_ (hsame x hx.2)
      unfold SameLink
      rw [hother x hx.1]
      exact ⟨rfl, rfl⟩

/-- **`agent_tick` takes a bucket off the wheel**; its processes stay linked. -/
theorem detach_spec (h : WheelLists k f) (now : ℕ) :
    ∃ k' current, agentTickDetach k now = some (k', current) ∧
      Chain.Linked k'.wheelLinks (agentWheelProc current) (f (wheelBucket now)) ∧
      WheelLists k' (Function.update f (wheelBucket now) []) ∧ Relinks k k' ∧
      (∀ j ∈ f (wheelBucket now), (k'.procs j).hb.heartbeatWheelActive = false) ∧
      ∀ j, j ∉ f (wheelBucket now) → SameLink k k' j := by
  set b := wheelBucket now with hb
  set k₁ : Kernel := k.setGlobal (k.agentGlobal.setHead b 0) with hk₁
  have hfuel : (f b).length + 1 < wheelFuel := by
    have hlen := h.length b
    unfold wheelFuel
    omega
  have hlinked : Chain.Linked k₁.wheelLinks
      (agentWheelProc (k.agentGlobal.heartbeatWheelHeads b)) (f b) :=
    h.linked b
  obtain ⟨k', hk', hr, hl, hh, hoff, hsame⟩ := detachLoop_spec _ _ hlinked hfuel
  have hdetach : agentTickDetach k now = some (k', k.agentGlobal.heartbeatWheelHeads b) := by
    unfold agentTickDetach
    dsimp only
    rw [← hb, ← hk₁, hk']
    rfl
  have hsame' : ∀ j, j ∉ f b → SameLink k k' j := fun j hj => hsame j hj
  refine ⟨k', _, hdetach, ?_, ⟨fun b' => ?_, fun b' j => ?_⟩,
    (relinks_setGlobal _ _).trans hr, hoff, hsame'⟩
  · rw [hl]
    exact hlinked
  · rw [hl, hh]
    change Chain.Linked k.wheelLinks
      (agentWheelProc (Function.update k.agentGlobal.heartbeatWheelHeads b 0 b')) _
    by_cases hbb : b' = b
    · rw [hbb, Function.update_self, Function.update_self]
      exact .nil
    · rw [Function.update_of_ne hbb, Function.update_of_ne hbb]
      exact h.linked b'
  · by_cases hj : j ∈ f b
    · rw [hoff j hj]
      refine iff_of_false ?_ (by simp)
      by_cases hbb : b' = b
      · rw [hbb, Function.update_self]
        exact List.not_mem_nil
      · rw [Function.update_of_ne hbb]
        intro hj'
        exact hbb (h.bucket_eq hj' hj)
    · rw [(hsame' j hj).1, (hsame' j hj).2, ← h.mem]
      by_cases hbb : b' = b
      · rw [hbb, Function.update_self]
        exact iff_of_false List.not_mem_nil hj
      · rw [Function.update_of_ne hbb]

end

end AgentOS
