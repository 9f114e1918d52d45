import AgentOS.Lib.Mask
import AgentOS.Model.Heartbeat
import AgentOS.Proof.WheelLists

/-!
# A whole `agent_tick`

* `Beside`: what the clock and other processes leave alone in a record, its heartbeat apart;
  `SameBeat`: its heartbeat but for the link.
* `Visited`: what a visit of `agent_tick` makes of a process; `visit_spec`, `walk_spec`: the walk
  over the detached list ends, and visits the processes of the list and no others.
* **`tick_spec`**: `clockintr` ends; a process that is on the wheel, in the bucket of the new time,
  is visited, and every other one is left alone.
-/

namespace AgentOS

/-- What a section of somebody else leaves alone, the heartbeat apart. -/
structure Beside (p q : Proc) : Prop where
  type : q.ident.agentType = p.ident.agentType
  unused : q.state = .unused ↔ p.state = .unused
  zombie : q.state = .zombie ↔ p.state = .zombie
  sleeps : q.state = .sleeping → p.state = .sleeping
  killed : q.killed = p.killed
  loopState : q.loop.loopState = p.loop.loopState
  watch : q.loop.watchMask = p.loop.watchMask
  waitDeadline : q.loop.waitDeadline = p.loop.waitDeadline
  gone : Gone q ↔ Gone p
  count : q.mailbox.count = p.mailbox.count

/-- The heartbeat, but for the link to the next process. -/
structure SameBeat (p q : Proc) : Prop where
  interval : q.hb.heartbeatInterval = p.hb.heartbeatInterval
  deadline : q.hb.heartbeatDeadline = p.hb.heartbeatDeadline
  active : q.hb.heartbeatWheelActive = p.hb.heartbeatWheelActive
  bucket : q.hb.heartbeatWheelBucket = p.hb.heartbeatWheelBucket

/-- What the visit of a process at tick `now` makes of it. -/
structure Visited (now : ℕ) (p q : Proc) : Prop where
  beside : Beside p q
  interval : q.hb.heartbeatInterval = p.hb.heartbeatInterval
  deadline : q.hb.heartbeatDeadline =
    if heartbeatDue p now then now + p.hb.heartbeatInterval.toNat else p.hb.heartbeatDeadline
  active : q.hb.heartbeatWheelActive = true ↔ heartbeatOn p
  bucket : q.hb.heartbeatWheelActive = true →
    q.hb.heartbeatWheelBucket = (wheelBucket q.hb.heartbeatDeadline : ℕ)

section

variable {k k' k'' : Kernel} {i j x : Slot} {p q r : Proc} {now : ℕ} {g : AgentGlobal}
  {f : Fin agentHeartbeatWheelBuckets → List Slot}

/-! ### Frames -/

theorem Beside.refl (p : Proc) : Beside p p :=
  ⟨rfl, Iff.rfl, Iff.rfl, id, rfl, rfl, rfl, rfl, Iff.rfl, rfl⟩

theorem Beside.trans (h : Beside p q) (h' : Beside q r) : Beside p r where
  type := h'.type.trans h.type
  unused := h'.unused.trans h.unused
  zombie := h'.zombie.trans h.zombie
  sleeps := fun hr => h.sleeps (h'.sleeps hr)
  killed := h'.killed.trans h.killed
  loopState := h'.loopState.trans h.loopState
  watch := h'.watch.trans h.watch
  waitDeadline := h'.waitDeadline.trans h.waitDeadline
  gone := h'.gone.trans h.gone
  count := h'.count.trans h.count

theorem Beside.hb (p : Proc) (hb : Heartbeat) : Beside p { p with hb := hb } :=
  ⟨rfl, Iff.rfl, Iff.rfl, id, rfl, rfl, rfl, rfl, Iff.rfl, rfl⟩

theorem SameBeat.refl (p : Proc) : SameBeat p p := ⟨rfl, rfl, rfl, rfl⟩

theorem SameBeat.trans (h : SameBeat p q) (h' : SameBeat q r) : SameBeat p r :=
  ⟨h'.interval.trans h.interval, h'.deadline.trans h.deadline, h'.active.trans h.active,
    h'.bucket.trans h.bucket⟩

theorem SameBeat.of_hb (h : q.hb = p.hb) : SameBeat p q := by
  constructor <;> rw [h]

/-- A sleeper that is woken. -/
theorem woken_beside (hs : p.state = .sleeping) (hq : q.state = .runnable)
    (h : Beside p { q with state := p.state }) : Beside p q where
  type := h.type
  unused := by rw [hs, hq]; simp
  zombie := by rw [hs, hq]; simp
  sleeps := fun he => by rw [hq] at he; cases he
  killed := h.killed
  loopState := h.loopState
  watch := h.watch
  waitDeadline := h.waitDeadline
  gone := h.gone
  count := h.count

theorem wakeupAt_beside (p : Proc) (chan : Chan) : Beside p (wakeupAt p chan) := by
  unfold wakeupAt
  split
  · rename_i hs
    exact woken_beside hs.1 rfl (Beside.refl p)
  · exact Beside.refl p

theorem replenish_beside (p : Proc) (now : ℕ) : Beside p (agentReplenishBudget p now) := by
  unfold agentReplenishBudget
  split
  · exact ⟨rfl, Iff.rfl, Iff.rfl, id, rfl, rfl, rfl, rfl, Iff.rfl, rfl⟩
  · exact Beside.refl p

theorem timeout_beside (p : Proc) (now : ℕ) : Beside p (agentTickTimeout j p now) := by
  unfold agentTickTimeout
  split
  · rename_i hs
    exact woken_beside hs.1 rfl ⟨rfl, Iff.rfl, Iff.rfl, id, rfl, rfl, rfl, rfl, Iff.rfl, rfl⟩
  · exact Beside.refl p

/-- A heartbeat signal raises no PARENT_GONE. -/
theorem signal_beside (p : Proc) (now : ℕ) :
    Beside p (agentSignalEventLocked j p agentEventHeartbeat now) := by
  have hbit : agentEventHeartbeat &&& agentEventParentGone = 0 := by decide
  unfold agentSignalEventLocked
  dsimp only
  split
  · rename_i hs
    refine woken_beside hs.1 rfl ?_
    refine ⟨rfl, Iff.rfl, Iff.rfl, id, rfl, rfl, rfl, rfl, ?_, rfl⟩
    unfold Gone
    dsimp only
    rw [Mask.or_and hbit]
  · refine ⟨rfl, Iff.rfl, Iff.rfl, id, rfl, rfl, rfl, rfl, ?_, rfl⟩
    unfold Gone
    dsimp only
    rw [Mask.or_and hbit]

theorem signal_hb (p : Proc) (event : BitVec 32) (now : ℕ) :
    (agentSignalEventLocked j p event now).hb = p.hb := by
  unfold agentSignalEventLocked
  dsimp only
  split <;> rfl

/-- Whether a process has a heartbeat is a matter of the fields that others leave alone. -/
theorem Beside.on (h : Beside p q) (hi : q.hb.heartbeatInterval = p.hb.heartbeatInterval)
    (hd : 0 < q.hb.heartbeatDeadline ↔ 0 < p.hb.heartbeatDeadline) :
    heartbeatOn q ↔ heartbeatOn p := by
  unfold heartbeatOn
  rw [h.type, h.loopState, hi, hd, Ne, h.unused]

/-- Links and activity apart, nothing has changed. -/
theorem Relinks.beside (h : Relinks k k') (j : Slot) : Beside (k.procs j) (k'.procs j) := by
  obtain ⟨hb, e⟩ := h.frame.2 j
  rw [e]
  exact Beside.hb _ hb

theorem Relinks.sameBeat (h : Relinks k k') (hs : SameLink k k' j) :
    SameBeat (k.procs j) (k'.procs j) := ⟨h.interval j, h.deadline j, hs.1, hs.2⟩

/-! ### Stores in the record of a process -/

/-- The record of a process that is on no list. -/
theorem WheelLists.store (h : WheelLists k f) (hi : (k.procs i).hb.heartbeatWheelActive = false)
    (hp : p.hb.heartbeatWheelActive = false) : WheelLists (k.setProc i p) f := by
  have hno : ∀ b, i ∉ f b := by
    intro b hm
    have hon := ((h.mem b i).1 hm).1
    rw [hi] at hon
    cases hon
  refine ⟨fun b => ?_, fun b j => ?_⟩
  · refine (h.linked b).frame fun x hx => ?_
    unfold Kernel.wheelLinks
    rw [Kernel.setProc_ne]
    rintro rfl
    exact hno b hx
  · by_cases hj : j = i
    · subst hj
      rw [Kernel.setProc_self]
      exact iff_of_false (hno b) (by simp [hp])
    · rw [Kernel.setProc_ne _ _ _ _ hj]
      exact h.mem b j

/-- A store that leaves the link and the activity of the process as they are. -/
theorem WheelLists.keep (h : WheelLists k f)
    (hn : p.hb.heartbeatWheelNext = (k.procs i).hb.heartbeatWheelNext)
    (ha : p.hb.heartbeatWheelActive = (k.procs i).hb.heartbeatWheelActive)
    (hb : p.hb.heartbeatWheelBucket = (k.procs i).hb.heartbeatWheelBucket) :
    WheelLists (k.setProc i p) f := by
  refine h.congr rfl (fun j => ?_) fun j => ?_
  · rw [Kernel.setProc_procs]
    split
    · rename_i hj
      rw [hn, hj]
    · rfl
  · unfold SameLink
    rw [Kernel.setProc_procs]
    split
    · rename_i hj
      rw [ha, hb, hj]
      exact ⟨rfl, rfl⟩
    · exact ⟨rfl, rfl⟩

/-- A loop over `proc[]` that leaves links and activity alone. -/
theorem WheelLists.each (h : WheelLists k f) {t : Slot → Proc → Proc}
    (ht : ∀ j, (t j (k.procs j)).hb.heartbeatWheelNext = (k.procs j).hb.heartbeatWheelNext ∧
      (t j (k.procs j)).hb.heartbeatWheelActive = (k.procs j).hb.heartbeatWheelActive ∧
      (t j (k.procs j)).hb.heartbeatWheelBucket = (k.procs j).hb.heartbeatWheelBucket) :
    WheelLists (k.each t) f :=
  h.congr rfl (fun j => (ht j).1) fun j => (ht j).2

theorem WheelLists.global (h : WheelLists k f)
    (hg : g.heartbeatWheelHeads = k.agentGlobal.heartbeatWheelHeads) :
    WheelLists (k.setGlobal g) f :=
  h.congr hg (fun _ => rfl) fun _ => ⟨rfl, rfl⟩

/-- The insertion of a process that is not on the wheel touches no other. -/
theorem insert_inactive (h : (k.procs i).hb.heartbeatWheelActive = false) :
    agentHeartbeatWheelInsertLocked k i =
      some (if heartbeatOn (k.procs i) then wheelLink k i else k) := by
  unfold agentHeartbeatWheelInsertLocked
  rw [if_neg (by simp [h])]
  rfl

theorem wheelLink_ne (h : x ≠ i) : (wheelLink k i).procs x = k.procs x := setHb_ne h

/-! ### The walk -/

/-- The branch that signals. -/
theorem tickHeartbeat_spec (k : Kernel) (j : Slot) (now : ℕ) :
    (agentTickHeartbeat k j now).ticks = k.ticks ∧
      (agentTickHeartbeat k j now).agentGlobal.heartbeatWheelHeads =
        k.agentGlobal.heartbeatWheelHeads ∧
      (∀ x, x ≠ j → (agentTickHeartbeat k j now).procs x = k.procs x) ∧
      Beside (k.procs j) ((agentTickHeartbeat k j now).procs j) ∧
      ∃ n, ((agentTickHeartbeat k j now).procs j).hb = { (k.procs j).hb with
        heartbeatWheelNext := n
        heartbeatDeadline := if heartbeatDue (k.procs j) now then
          now + (k.procs j).hb.heartbeatInterval.toNat else (k.procs j).hb.heartbeatDeadline } := by
  unfold agentTickHeartbeat
  dsimp only
  set p : Proc := { k.procs j with hb := { (k.procs j).hb with heartbeatWheelNext := 0 } } with hp
  have hdue : (heartbeatOn p ∧ p.hb.heartbeatDeadline ≤ now) ↔ heartbeatDue (k.procs j) now :=
    Iff.rfl
  by_cases hd : heartbeatDue (k.procs j) now
  · rw [if_pos (hdue.2 hd)]
    refine ⟨rfl, rfl, fun x hx => Kernel.setProc_ne _ _ _ _ hx, ?_, 0, ?_⟩
    · change Beside (k.procs j) ((k.setProc j _).procs j)
      rw [Kernel.setProc_self]
      exact ((Beside.hb _ _).trans (signal_beside p now)).trans (Beside.hb _ _)
    · change ((k.setProc j _).procs j).hb = _
      rw [Kernel.setProc_self, if_pos hd, signal_hb]
  · rw [if_neg fun h => hd (hdue.1 h)]
    refine ⟨rfl, rfl, fun x hx => Kernel.setProc_ne _ _ _ _ hx, ?_, 0, ?_⟩
    · rw [Kernel.setProc_self]
      exact Beside.hb _ _
    · rw [Kernel.setProc_self, if_neg hd]

/-- A visit ends, and touches the process it visits only. -/
theorem visit_spec (h : WheelLists k f) (hj : (k.procs j).hb.heartbeatWheelActive = false)
    (now : ℕ) :
    ∃ k' f', agentTickVisit k j now = some k' ∧ WheelLists k' f' ∧ k'.ticks = k.ticks ∧
      (∀ x, x ≠ j → k'.procs x = k.procs x) ∧ Visited now (k.procs j) (k'.procs j) := by
  obtain ⟨hticks, hheads, hothers, hbeside, n, hhb⟩ := tickHeartbeat_spec k j now
  set k₁ := agentTickHeartbeat k j now with hk₁
  have hoff : (k₁.procs j).hb.heartbeatWheelActive = false := by
    rw [hhb]
    exact hj
  -- the record of `j` has changed, but `j` is on no list
  have hlists : WheelLists k₁ f := by
    refine (h.store hj hoff).congr hheads (fun x => ?_) fun x => ?_
    · rw [Kernel.setProc_procs]
      split
      · rename_i hx
        rw [hx]
      · rename_i hx
        rw [hothers x hx]
    · unfold SameLink
      rw [Kernel.setProc_procs]
      split
      · rename_i hx
        rw [hx]
        exact ⟨rfl, rfl⟩
      · rename_i hx
        rw [hothers x hx]
        exact ⟨rfl, rfl⟩
  have hon : heartbeatOn (k₁.procs j) ↔ heartbeatOn (k.procs j) := by
    refine hbeside.on (by rw [hhb]) ?_
    rw [hhb]
    dsimp only
    split
    · rename_i hd
      have hpos := hd.1.2.2.2.1
      have hdead := hd.1.2.2.2.2
      omega
    · exact Iff.rfl
  unfold agentTickVisit
  dsimp only
  rw [← hk₁]
  by_cases hb : heartbeatOn (k₁.procs j)
  · rw [if_pos hb, insert_inactive hoff, if_pos hb]
    obtain ⟨hl, hr, hact, hbucket, -⟩ := link_spec hlists hoff
    refine ⟨_, _, rfl, hl, hr.frame.1.trans hticks, fun x hx => ?_, ?_⟩
    · rw [wheelLink_ne hx, hothers x hx]
    · refine ⟨hbeside.trans (hr.beside j), ?_, ?_, iff_of_true hact (hon.1 hb), fun _ => ?_⟩
      · rw [hr.interval, hhb]
      · rw [hr.deadline, hhb]
      · rw [hbucket, hr.deadline]
  · rw [if_neg hb]
    refine ⟨k₁, f, rfl, hlists, hticks, hothers, hbeside, by rw [hhb], by rw [hhb], ?_, ?_⟩
    · exact iff_of_false (by simp [hoff]) fun h => hb (hon.2 h)
    · intro ha
      rw [hoff] at ha
      cases ha

/-- **The walk** over a detached list ends; it visits the processes of the list, once each. -/
theorem walk_spec {l : List Slot} (now : ℕ) : ∀ {k : Kernel}
    {f : Fin agentHeartbeatWheelBuckets → List Slot} {fuel current : ℕ} (fired : List Slot),
    WheelLists k f →
    Chain.Linked k.wheelLinks (agentWheelProc current) l →
    (∀ j ∈ l, (k.procs j).hb.heartbeatWheelActive = false) → l.length + 1 < fuel →
    ∃ k' f', agentTickWalk now fuel k current fired =
        some (k', fired ++ l.filter fun j => heartbeatDue (k.procs j) now) ∧
      WheelLists k' f' ∧ k'.ticks = k.ticks ∧ (∀ x, x ∉ l → k'.procs x = k.procs x) ∧
      ∀ j ∈ l, Visited now (k.procs j) (k'.procs j) := by
  induction l with
  | nil =>
    intro k f fuel current fired h hl _ hf
    obtain ⟨fuel, rfl⟩ : ∃ n, fuel = n + 2 := ⟨fuel - 2, by simp at hf; omega⟩
    have hend : agentTickWalk now (fuel + 2) k current fired = some (k, fired) := by
      unfold agentTickWalk
      by_cases hs : current = 0
      · rw [if_pos hs]
      · rw [if_neg hs, hl.head]
        rfl
    exact ⟨k, f, by simpa using hend, h, rfl, fun _ _ => rfl, by simp⟩
  | cons j l ih =>
    intro k f fuel current fired h hl hoff hf
    obtain ⟨fuel, rfl⟩ : ∃ n, fuel = n + 1 := ⟨fuel - 1, by simp at hf; omega⟩
    have hnd := List.nodup_cons.1 hl.nodup
    have hscan : agentWheelProc current = some j := hl.head
    have hne : current ≠ 0 := by
      rintro rfl
      cases hscan
    rw [hscan] at hl
    have htail : Chain.Linked k.wheelLinks (k.wheelLinks j) l := by
      cases hl with
      | cons ht => exact ht
    set g : AgentGlobal := { k.agentGlobal with
      heartbeatTickScanned := k.agentGlobal.heartbeatTickScanned + 1 } with hg
    obtain ⟨k₁, f₁, hvisit, hl₁, ht₁, hothers, hv⟩ :=
      visit_spec (h.global (g := g) rfl) (hoff j (by simp)) now
    have hkeep : ∀ x ∈ l, k₁.procs x = k.procs x := by
      intro x hx
      refine hothers x ?_
      rintro rfl
      exact hnd.1 hx
    have hlinked : Chain.Linked k₁.wheelLinks (k.wheelLinks j) l := by
      refine htail.frame fun x hx => ?_
      unfold Kernel.wheelLinks
      rw [hkeep x hx]
    have hfuel : l.length + 1 < fuel := by
      simp at hf
      omega
    have hlinked' : Chain.Linked k₁.wheelLinks
        (agentWheelProc (k.procs j).hb.heartbeatWheelNext) l := hlinked
    obtain ⟨k', f', hwalk, hl', ht', ho', hv'⟩ := ih
      (if heartbeatDue (k.procs j) now then fired ++ [j] else fired) hl₁ hlinked'
      (fun x hx => by rw [hkeep x hx]; exact hoff x (List.mem_cons_of_mem _ hx)) hfuel
    refine ⟨k', f', ?_, hl', ht'.trans ht₁, fun x hx => ?_, fun x hx => ?_⟩
    · have hfilter : l.filter (fun x => heartbeatDue (k₁.procs x) now) =
          l.filter fun x => heartbeatDue (k.procs x) now := by
        refine List.filter_congr fun x hx => ?_
        rw [hkeep x hx]
      have hstep : agentTickWalk now (fuel + 1) k current fired =
          (agentTickVisit (k.setGlobal g) j now).bind fun k' => agentTickWalk now fuel k'
            (k.procs j).hb.heartbeatWheelNext
            (if heartbeatDue (k.procs j) now then fired ++ [j] else fired) := by
        rw [agentTickWalk.eq_2, if_neg hne, hscan]
        rfl
      rw [hstep, hvisit, Option.bind_some, hwalk, hfilter]
      by_cases hd : heartbeatDue (k.procs j) now
      · simp [hd]
      · simp [hd]
    · rw [List.mem_cons, not_or] at hx
      rw [ho' x hx.2, hothers x hx.1]
      rfl
    · rcases List.mem_cons.1 hx with rfl | hx
      · rw [ho' x hnd.1]
        exact hv
      · have hvx := hv' x hx
        rwa [hkeep x hx] at hvx

/-! ### The whole interrupt -/

/-- What a tick makes of a process: one in the bucket of the new time is visited, the others are
left alone. `fired` are the signals it gets. -/
structure Ticked (now : ℕ) (p q : Proc) (fired : List ℕ) : Prop where
  visited : p.hb.heartbeatWheelActive = true →
    p.hb.heartbeatWheelBucket = (wheelBucket now : ℕ) →
      Visited now p q ∧ fired = if heartbeatDue p now then [now] else []
  left : ¬ (p.hb.heartbeatWheelActive = true ∧
    p.hb.heartbeatWheelBucket = (wheelBucket now : ℕ)) → Beside p q ∧ SameBeat p q ∧ fired = []

/-- The occurrences of one process among those of a list that meet a test. -/
theorem filter_one {l : List Slot} (hnd : l.Nodup) (test : Slot → Bool) (j : Slot) :
    (l.filter test).filter (· == j) = if j ∈ l ∧ test j = true then [j] else [] := by
  have hcount := (hnd.filter test).count (a := j)
  rw [List.filter_beq, hcount]
  simp only [List.mem_filter]
  split <;> rfl

/-- **The clock interrupt ends.** -/
theorem tick_spec (h : WheelLists k f) :
    ∃ k' f' fired, clockintr k = some (k', fired) ∧ WheelLists k' f' ∧
      k'.ticks = (k.ticks + 1) % 2 ^ 32 ∧
      ∀ j, Ticked ((k.ticks + 1) % 2 ^ 32) (k.procs j) (k'.procs j)
        ((fired.filter (· == j)).map fun _ => (k.ticks + 1) % 2 ^ 32) := by
  set now := (k.ticks + 1) % 2 ^ 32 with hnow
  -- the sections before the walk
  set k₁ := (({ k with ticks := now } : Kernel).each fun _ p => wakeupAt p .ticks).each
    (fun _ p => agentReplenishBudget p now) with hk₁
  set k₂ := k₁.setGlobal (agentLeaseReapExpired k₁.agentGlobal now) with hk₂
  have hhb₂ : ∀ j, (k₂.procs j).hb = (k.procs j).hb := by
    intro j
    change (agentReplenishBudget (wakeupAt (k.procs j) .ticks) now).hb = (k.procs j).hb
    unfold agentReplenishBudget wakeupAt
    split <;> split <;> rfl
  have hbeside₂ : ∀ j, Beside (k.procs j) (k₂.procs j) := fun j =>
    (wakeupAt_beside _ _).trans (replenish_beside _ _)
  have hlists₂ : WheelLists k₂ f := by
    refine h.congr rfl (fun j => by rw [hhb₂]) fun j => ?_
    unfold SameLink
    rw [hhb₂]
    exact ⟨rfl, rfl⟩
  obtain ⟨k₃, current, hdetach, hlinked, hlists₃, hr, hoff, hsame⟩ := detach_spec hlists₂ now
  have hfuel : (f (wheelBucket now)).length + 1 < wheelFuel := by
    have hlen := h.length (wheelBucket now)
    unfold wheelFuel
    omega
  obtain ⟨k₄, f₄, hwalk, hlists₄, ht₄, hothers, hvisited⟩ :=
    walk_spec now [] hlists₃ hlinked hoff hfuel
  set k₅ := k₄.each (fun j p => agentTickTimeout j p now) with hk₅
  have hhb₅ : ∀ j, (k₅.procs j).hb = (k₄.procs j).hb := by
    intro j
    change (agentTickTimeout j (k₄.procs j) now).hb = (k₄.procs j).hb
    unfold agentTickTimeout
    split <;> rfl
  have hbeside₅ : ∀ j, Beside (k₄.procs j) (k₅.procs j) := fun j => timeout_beside _ _
  have hlists₅ : WheelLists k₅ f₄ := by
    refine hlists₄.congr rfl (fun j => by rw [hhb₅]) fun j => ?_
    unfold SameLink
    rw [hhb₅]
    exact ⟨rfl, rfl⟩
  have hclock : clockintr k = some (k₅, (f (wheelBucket now)).filter
      fun j => heartbeatDue (k₃.procs j) now) := by
    unfold clockintr agentTick
    dsimp only
    rw [← hnow, ← hk₁, ← hk₂, hdetach, Option.bind_some, hwalk, Option.map_some]
    rfl
  have hticks : k₅.ticks = now := by
    change k₄.ticks = now
    rw [ht₄, hr.frame.1]
    rfl
  refine ⟨k₅, f₄, _, hclock, hlists₅, hticks, fun j => ⟨fun hact hbucket => ?_, fun hno => ?_⟩⟩
  · -- a process of the bucket: what detaching it does to its record is undone or read by nobody
    have hj : j ∈ f (wheelBucket now) := (h.mem _ j).2 ⟨hact, hbucket⟩
    have hon : heartbeatOn (k₃.procs j) ↔ heartbeatOn (k.procs j) :=
      (hr.on j).trans ((hbeside₂ j).on (by rw [hhb₂]) (by rw [hhb₂]))
    have hdue : heartbeatDue (k₃.procs j) now ↔ heartbeatDue (k.procs j) now := by
      unfold heartbeatDue
      rw [hon, hr.deadline, hhb₂]
    have hv := hvisited j hj
    refine ⟨⟨?_, ?_, ?_, ?_, ?_⟩, ?_⟩
    · exact (((hbeside₂ j).trans (hr.beside j)).trans hv.beside).trans (hbeside₅ j)
    · rw [hhb₅, hv.interval, hr.interval, hhb₂]
    · rw [hhb₅, hv.deadline, hr.interval, hr.deadline, hhb₂]
      simp only [hdue]
    · rw [hhb₅, hv.active, hon]
    · rw [hhb₅]
      exact hv.bucket
    · rw [filter_one (h.linked _).nodup]
      simp only [hj, decide_eq_true_eq, hdue, true_and]
      split <;> rfl
  · have hj : j ∉ f (wheelBucket now) := fun hm => hno ((h.mem _ j).1 hm)
    have hproc : k₄.procs j = k₃.procs j := hothers j hj
    refine ⟨?_, ?_, ?_⟩
    · have h34 := (hr.beside j)
      rw [← hproc] at h34
      exact ((hbeside₂ j).trans h34).trans (hbeside₅ j)
    · have h34 := hr.sameBeat (hsame j hj)
      rw [← hproc] at h34
      exact ((SameBeat.of_hb (hhb₂ j)).trans h34).trans (SameBeat.of_hb (hhb₅ j))
    · rw [filter_one (h.linked _).nodup, if_neg fun hm => hj hm.1]
      rfl

end

end AgentOS
