import AgentOS.Proof.Authority
import AgentOS.Proof.Workflow

/-!
# Processes that create, fork, terminate and exit

* `ThreadInv`: what each thread knows of its own record, and a fork of its child.
* `TableInv`: pids are unique, and a process whose pid names the workflow of another owns
  that workflow.
* `CascadeChange`: all a step may do to the process table and the workflow table;
  `TableInv.step`: such a change keeps the table.
* **`cascadeNext_change`**: every step makes such a change and keeps the threads.
-/

namespace AgentOS

open Machine

/-! ### Records and threads -/

/-- A process that owns its workflow holds its own identity as leader generation. -/
def Proc.Settled (p : Proc) : Prop :=
  p.wf.workflowId = p.pid → p.wf.workflowLeaderGeneration = p.ident.identityGeneration

/-- Registered, in no workflow, or the owner. -/
def Proc.Tied (p : Proc) : Prop :=
  p.wf.workflowMemberRegistered = true ∨ p.wf.outside ∨ p.wf.workflowId = p.pid

/-- Its own pid and identity, `generation`, name its workflow. -/
structure Proc.Owns (p : Proc) (generation : ℕ) : Prop where
  id : p.wf.workflowId = p.pid
  leader : p.wf.workflowLeaderGeneration = generation
  identity : p.ident.identityGeneration = generation
  pos : generation ≠ 0

/-- What a thread knows of its own record. -/
def ThreadOk (p : Proc) : Call → Prop
  | .idle => True
  | .user => p.live ∧ p.Settled ∧ (p.Tied ∨ p.killed = true)
  | .kernel | .forkCopy _ | .forkJoin _ | .forkRelease _ | .forkRun _ =>
    p.live ∧ p.Settled ∧ p.Tied
  | .markLeave _ =>
    p.live ∧ p.Settled ∧ p.Tied ∧ p.ident.agentType ≠ agentTypeNormal ∧
      p.ident.identityGeneration ≠ 0
  | .markId _ =>
    p.live ∧ p.wf.workflowMemberRegistered = false ∧ p.ident.agentType ≠ agentTypeNormal ∧
      p.ident.identityGeneration ≠ 0
  | .markOwn _ =>
    p.live ∧ p.wf.workflowMemberRegistered = false ∧ p.ident.agentType ≠ agentTypeNormal ∧
      p.ident.identityGeneration ≠ 0 ∧ p.wf.workflowId = p.pid
  | .markCreate => p.live ∧ p.Settled ∧ p.wf.workflowId = p.pid
  | .markJoin =>
    p.live ∧ p.Settled ∧ p.wf.workflowMemberRegistered = false ∧ p.wf.workflowId = p.pid ∧
      ¬ p.wf.outside
  | .cascade _ _ => p.live ∧ p.Settled ∧ p.Tied ∧ ¬ p.wf.outside
  | .sweep key _ _ _ => p.live ∧ p.Settled ∧ p.Tied ∧ ¬ p.wf.outside ∧ p.wf.key = key
  | .exitLeave => p.live
  | .exitZombie => p.live ∧ p.wf.workflowMemberRegistered = false

/-- The child a fork is making. -/
def Call.child : Call → Option Slot
  | .forkCopy j | .forkJoin j | .forkRelease j | .forkRun j => some j
  | _ => none

/-- What a fork knows of its child. -/
def ForkOk (s : CascadeState) (i : Slot) : Call → Prop
  | .forkCopy j => s.lock j = some i ∧ (s.proc j).live ∧ (s.proc j).wf = Membership.init
  | .forkJoin j =>
    s.lock j = some i ∧ (s.proc j).live ∧ (s.proc j).Settled ∧
      (s.proc j).wf.workflowMemberRegistered = false
  | .forkRelease j => s.lock j = some i ∧ ThreadOk (s.proc j) .user
  | .forkRun j => ThreadOk (s.proc j) .user
  | _ => True

/-- **The invariant of the threads.** -/
structure ThreadInv (s : CascadeState) : Prop where
  thread : ∀ i, ThreadOk (s.proc i) (s.calls i)
  fork : ∀ i, ForkOk s i (s.calls i)
  idle : ∀ i j, (s.calls i).child = some j → s.calls j = .idle
  child : ∀ i i' j, (s.calls i).child = some j → (s.calls i').child = some j → i = i'

/-- What every record satisfies, below the pid counter `n`. -/
structure ProcOk (n : ℕ) (p : Proc) : Prop where
  free : p.state = .unused → p.pid = 0 ∧ p.wf = Membership.init
  pid : p.state ≠ .unused → 0 < p.pid ∧ p.pid < n
  id : p.wf.workflowId < n
  type : p.wf.workflowId ≠ 0 →
    p.ident.agentType ≠ agentTypeNormal ∧ p.ident.identityGeneration ≠ 0
  registered : p.wf.workflowMemberRegistered = true → ¬ p.wf.outside
  leader : p.wf.isWorkflowLeader = true → p.wf.workflowId = p.pid
  zombie : p.state = .zombie → p.wf.workflowMemberRegistered = false

/-- **The invariant of the process table.** -/
structure TableInv (s : CascadeState) : Prop where
  next : 0 < s.kernel.nextpid
  proc : ∀ j, ProcOk s.kernel.nextpid (s.proc j)
  pids : ∀ i j, (s.proc i).state ≠ .unused → (s.proc j).state ≠ .unused →
    (s.proc i).pid = (s.proc j).pid → i = j
  origin : ∀ i j, i ≠ j → (s.proc j).state ≠ .unused →
    (s.proc i).wf.workflowId = (s.proc j).pid →
    (s.proc j).Owns (s.proc i).wf.workflowLeaderGeneration

section

variable {s t : CascadeState} {i j a : Slot} {p q : Proc} {n n' : ℕ} {c : Call}

theorem Proc.Keeps.refl (p : Proc) : p.Keeps p := ⟨rfl, rfl, rfl, rfl, id, .rfl, .rfl⟩

theorem Proc.Keeps.live (h : p.Keeps q) : q.live ↔ p.live :=
  and_congr (not_congr h.unused) (not_congr h.zombie)

theorem Proc.Keeps.owns (h : p.Keeps q) {g : ℕ} : q.Owns g ↔ p.Owns g := by
  constructor <;> rintro ⟨h₁, h₂, h₃, h₄⟩
  · exact ⟨by rw [← h.wf, ← h.pid]; exact h₁, by rw [← h.wf]; exact h₂,
      by rw [← h.generation]; exact h₃, h₄⟩
  · exact ⟨by rw [h.wf, h.pid]; exact h₁, by rw [h.wf]; exact h₂,
      by rw [h.generation]; exact h₃, h₄⟩

theorem ProcOk.keeps (h : ProcOk n p) (hk : p.Keeps q) : ProcOk n q := by
  refine ⟨fun hu => ?_, fun hu => ?_, ?_, fun hw => ?_, fun hr => ?_, fun hl => ?_, fun hz => ?_⟩
  · rw [hk.pid, hk.wf]; exact h.free (hk.unused.1 hu)
  · rw [hk.pid]; exact h.pid fun hu' => hu (hk.unused.2 hu')
  · rw [hk.wf]; exact h.id
  · rw [hk.type, hk.generation]; rw [hk.wf] at hw; exact h.type hw
  · rw [hk.wf] at hr ⊢; exact h.registered hr
  · rw [hk.wf, hk.pid]; rw [hk.wf] at hl; exact h.leader hl
  · rw [hk.wf]; exact h.zombie (hk.zombie.1 hz)

theorem ProcOk.mono (h : ProcOk n p) (hn : n ≤ n') : ProcOk n' p :=
  { h with
    pid := fun hu => ⟨(h.pid hu).1, (h.pid hu).2.trans_le hn⟩
    id := h.id.trans_le hn }

theorem ThreadOk.keeps (h : ThreadOk p c) (hk : p.Keeps q) : ThreadOk q c := by
  have hlive := hk.live
  have hset : p.Settled → q.Settled := fun hs hw => by
    rw [hk.wf, hk.generation]
    rw [hk.wf, hk.pid] at hw
    exact hs hw
  have htied : q.Tied ↔ p.Tied := by unfold Proc.Tied; rw [hk.wf, hk.pid]
  cases c <;> simp only [ThreadOk, hlive, htied, hk.wf, hk.type, hk.generation, hk.pid] at h ⊢
  case user => exact ⟨h.1, hset h.2.1, h.2.2.imp id hk.killed⟩
  all_goals first | exact h | exact ⟨h.1, hset h.2.1, h.2.2⟩

theorem ThreadOk.live (h : ThreadOk p c) (hc : c ≠ .idle) : p.live := by
  cases c
  case idle => exact absurd rfl hc
  case exitLeave => exact h
  all_goals exact h.1

theorem ForkOk.live (h : ForkOk s i c) (hc : c.child = some j) : (s.proc j).live := by
  cases c <;> simp only [Call.child, reduceCtorEq, Option.some.injEq] at hc <;> subst hc
  · exact h.2.1
  · exact h.2.1
  · exact h.2.1
  · exact h.1

theorem ForkOk.congr (h : ForkOk s i c) (hl : ∀ j, c.child = some j → t.lock j = s.lock j)
    (hp : ∀ j, c.child = some j → (s.proc j).Keeps (t.proc j)) : ForkOk t i c := by
  have hset : ∀ j, c.child = some j → (s.proc j).Settled → (t.proc j).Settled :=
    fun j hc hs hw => by
      rw [(hp j hc).wf, (hp j hc).generation]
      rw [(hp j hc).wf, (hp j hc).pid] at hw
      exact hs hw
  cases c
  case forkCopy j =>
    have hk := hp j rfl
    exact ⟨(hl j rfl).trans h.1, hk.live.2 h.2.1, hk.wf.trans h.2.2⟩
  case forkJoin j =>
    have hk := hp j rfl
    exact ⟨(hl j rfl).trans h.1, hk.live.2 h.2.1, hset j rfl h.2.2.1, by rw [hk.wf]; exact h.2.2.2⟩
  case forkRelease j => exact ⟨(hl j rfl).trans h.1, h.2.keeps (hp j rfl)⟩
  case forkRun j =>
    have hu : ThreadOk (s.proc j) .user := h
    exact hu.keeps (hp j rfl)
  all_goals trivial

/-! ### Threads -/

/-- A step of no thread. -/
theorem ThreadInv.quiet (h : ThreadInv s) (hc : t.calls = s.calls) (hl : t.lock = s.lock)
    (hp : ∀ j, (s.proc j).live → (s.proc j).Keeps (t.proc j)) : ThreadInv t := by
  refine ⟨fun j => ?_, fun j => ?_, ?_, ?_⟩
  · rw [hc]
    by_cases hj : s.calls j = .idle
    · rw [hj]; trivial
    · exact (h.thread j).keeps (hp j ((h.thread j).live hj))
  · rw [hc]
    exact (h.fork j).congr (fun _ _ => by rw [hl]) fun j' hj' => hp j' ((h.fork j).live hj')
  · rw [hc]; exact h.idle
  · rw [hc]; exact h.child

/-- **A step of the thread of `i`**: the others keep their records, their children and the
locks on them. -/
theorem ThreadInv.move (h : ThreadInv s) (hi : s.calls i ≠ .idle)
    (hc : t.calls = Function.update s.calls i c)
    (hchild : ∀ j, c.child = some j →
      (s.calls i).child = some j ∨ (s.proc j).state = .unused)
    (hl : ∀ j, c.child ≠ some j → (s.calls i).child ≠ some j → t.lock j = s.lock j)
    (hp : ∀ j, j ≠ i → c.child ≠ some j → (s.calls i).child ≠ some j →
      (s.proc j).Keeps (t.proc j))
    (hok : ThreadOk (t.proc i) c) (hfork : ForkOk t i c) : ThreadInv t := by
  have hself : t.calls i = c := by rw [hc, Function.update_self]
  have hother : ∀ j, j ≠ i → t.calls j = s.calls j := fun j hj => by
    rw [hc, Function.update_of_ne hj]
  -- a slot that a new child takes has no thread and is nobody's child
  have hfresh : ∀ j, c.child = some j → s.calls j = .idle := by
    intro j hj
    rcases hchild j hj with hj' | hu
    · exact h.idle i j hj'
    · by_contra hne
      exact ((h.thread j).live hne).1 hu
  have hdiff : ∀ k j, k ≠ i → (s.calls k).child = some j →
      c.child ≠ some j ∧ (s.calls i).child ≠ some j := by
    intro k j hk hj
    have hne : (s.calls i).child ≠ some j := fun hj' => hk (h.child k i j hj hj')
    refine ⟨fun hj' => ?_, hne⟩
    rcases hchild j hj' with hj'' | hu
    · exact hne hj''
    · exact ((h.fork k).live hj).1 hu
  have hkid : ∀ k j, k ≠ i → (s.calls k).child = some j → j ≠ i := by
    rintro k j hk hj rfl
    exact hi (h.idle k j hj)
  refine ⟨fun j => ?_, fun k => ?_, fun k j hk => ?_, fun k k' j hk hk' => ?_⟩
  · by_cases hj : j = i
    · subst hj; rw [hself]; exact hok
    · rw [hother j hj]
      by_cases hidle : s.calls j = .idle
      · rw [hidle]; trivial
      · exact (h.thread j).keeps (hp j hj (fun hcj => hidle (hfresh j hcj))
          fun hcj => hidle (h.idle i j hcj))
  · by_cases hk : k = i
    · subst hk; rw [hself]; exact hfork
    · rw [hother k hk]
      refine (h.fork k).congr (fun j hj => ?_) fun j hj => ?_
      · exact hl j (hdiff k j hk hj).1 (hdiff k j hk hj).2
      · exact hp j (hkid k j hk hj) (hdiff k j hk hj).1 (hdiff k j hk hj).2
  · by_cases hki : k = i
    · subst hki
      rw [hself] at hk
      have hidle := hfresh j hk
      rw [hother j fun hj => hi (hj ▸ hidle)]
      exact hidle
    · rw [hother k hki] at hk
      rw [hother j (hkid k j hki hk)]
      exact h.idle k j hk
  · by_cases hki : k = i <;> by_cases hki' : k' = i
    · rw [hki, hki']
    · subst hki
      rw [hself] at hk
      rw [hother k' hki'] at hk'
      exact absurd hk (hdiff k' j hki' hk').1
    · subst hki'
      rw [hself] at hk'
      rw [hother k hki] at hk
      exact absurd hk' (hdiff k j hki hk).1
    · rw [hother k hki] at hk
      rw [hother k' hki'] at hk'
      exact h.child k k' j hk hk'

/-- A slot gets its thread. -/
theorem ThreadInv.spawn (h : ThreadInv s) (hi : s.calls i = .idle)
    (hn : ∀ k, (s.calls k).child ≠ some i) (hok : ThreadOk (s.proc i) .user) :
    ThreadInv (s.goto i .user) := by
  have hself : (s.goto i .user).calls i = .user := Function.update_self ..
  have hother : ∀ j, j ≠ i → (s.goto i .user).calls j = s.calls j := fun j hj =>
    Function.update_of_ne hj ..
  refine ⟨fun j => ?_, fun k => ?_, fun k j hk => ?_, fun k k' j hk hk' => ?_⟩
  · by_cases hj : j = i
    · subst hj; rw [hself]; exact hok
    · rw [hother j hj]; exact h.thread j
  · by_cases hk : k = i
    · subst hk; rw [hself]; trivial
    · rw [hother k hk]; exact h.fork k
  · by_cases hki : k = i
    · subst hki; rw [hself] at hk; cases hk
    · rw [hother k hki] at hk
      rw [hother j fun hj => hn k (hj ▸ hk)]
      exact h.idle k j hk
  · by_cases hki : k = i
    · subst hki; rw [hself] at hk; cases hk
    by_cases hki' : k' = i
    · subst hki'; rw [hself] at hk'; cases hk'
    rw [hother k hki] at hk
    rw [hother k' hki'] at hk'
    exact h.child k k' j hk hk'

end

/-! ### The process table -/

/-- The workflows that the processes are registered with. -/
def CascadeState.held (s : CascadeState) : Slot → Option WorkflowKey := fun j => (s.proc j).wf.held

/-- The slot is the child of a fork that has not joined the workflow yet. -/
def CascadeState.Joining (s : CascadeState) (j : Slot) : Prop := ∃ i, s.calls i = .forkJoin j

/-- What a thread may store in its own record. -/
structure OwnStore (n : ℕ) (p q : Proc) : Prop where
  pid : q.pid = p.pid
  unused : q.state = .unused ↔ p.state = .unused
  live : q.live → p.live
  killed : q.killed = p.killed
  ok : ProcOk n q
  key : q.wf.key = p.wf.key ∨ q.wf.workflowId = q.pid
  owns : ∀ g, p.Owns g → q.Owns g

/-- All a step may do to the record of slot `a`. -/
inductive SlotStep (s t : CascadeState) (a : Slot) : Prop
  | keeps (hk : (s.proc a).Keeps (t.proc a)) (hj : s.Joining a ↔ t.Joining a)
  | own (ho : OwnStore s.kernel.nextpid (s.proc a) (t.proc a)) (hj : s.Joining a ↔ t.Joining a)
  | alloc (hu : (s.proc a).state = .unused) (hu' : (t.proc a).state = .used)
      (hpid : (t.proc a).pid = s.kernel.nextpid) (hn : t.kernel.nextpid = s.kernel.nextpid + 1)
      (hwf : (t.proc a).wf = Membership.init)
  | free (hc : s.calls a = .idle) (hu : (t.proc a).state = .unused) (hpid : (t.proc a).pid = 0)
      (hwf : (t.proc a).wf = Membership.init)
  | store (i : Slot) (hi : i ≠ a) (hc : s.calls a = .idle) (hlive : (s.proc a).live)
      (hwf : (s.proc a).wf = Membership.init) (hpid : (t.proc a).pid = (s.proc a).pid)
      (hstate : (t.proc a).state = (s.proc a).state) (hset : (s.proc i).Settled)
      (hlive' : (s.proc i).live) (hkey : (t.proc a).wf.key = (s.proc i).wf.key)
      (hlead : (t.proc a).wf.isWorkflowLeader = false)
      (hreg : (t.proc a).wf.workflowMemberRegistered = false)
      (htype : (t.proc a).ident.agentType = (s.proc i).ident.agentType)
      (hgen : (t.proc a).ident.identityGeneration ≠ 0) (hj : t.Joining a)
  | born (hc : s.calls a = .idle) (hpid : (t.proc a).pid = (s.proc a).pid)
      (hstate : (t.proc a).state = (s.proc a).state) (hlive : (s.proc a).live)
      (hid : (t.proc a).ident = (s.proc a).ident)
      (hkey : (t.proc a).wf.key = (s.proc a).wf.key)
      (hlead : (t.proc a).wf.isWorkflowLeader = (s.proc a).wf.isWorkflowLeader)
      (hreg : (t.proc a).wf.workflowMemberRegistered = true → ¬ (s.proc a).wf.outside)
      (hkill : (s.proc a).wf.outside ∨ (t.proc a).killed = true ∨
        Active s.workflows (s.proc a).wf.key)
      (hkept : (s.proc a).killed = true → (t.proc a).killed = true)

/-- **All a step may do** to the process table and the workflow table: the record of one slot
changes, and a record of a workflow becomes Active only as its owner creates it anew. -/
structure CascadeChange (s t : CascadeState) : Prop where
  nextpid : s.kernel.nextpid ≤ t.kernel.nextpid
  active : ∀ k, Active t.workflows k → Active s.workflows k ∨ ¬ Recorded s.workflows k ∧
    ∃ m, s.calls m = .markCreate ∧ (s.proc m).wf.key = k
  registry : Registry t.workflows t.held
  slot : ∃ a, SlotStep s t a ∧
    ∀ j, j ≠ a → (s.proc j).Keeps (t.proc j) ∧ (s.Joining j ↔ t.Joining j)

section

variable {s t : CascadeState} {i j a : Slot} {p q : Proc} {n : ℕ}

theorem key_id {m m' : Membership} (h : m'.key = m.key) : m'.workflowId = m.workflowId :=
  congrArg Prod.fst h

theorem key_generation {m m' : Membership} (h : m'.key = m.key) :
    m'.workflowLeaderGeneration = m.workflowLeaderGeneration :=
  congrArg Prod.snd h

theorem outside_key {m m' : Membership} (h : m'.key = m.key) : m'.outside ↔ m.outside := by
  unfold Membership.outside
  rw [key_id h, key_generation h]

theorem procOk_free (hu : p.state = .unused) (hp : p.pid = 0) (hwf : p.wf = Membership.init)
    (hn : 0 < n) : ProcOk n p := by
  refine ⟨fun _ => ⟨hp, hwf⟩, fun h => absurd hu h, ?_, ?_, ?_, ?_, ?_⟩ <;>
    simp [hwf, Membership.init, hn]

/-- A process in no workflow owns none. -/
theorem not_owns_init (hwf : p.wf = Membership.init) (hp : 0 < p.pid) (g : ℕ) : ¬ p.Owns g := by
  rintro ⟨h, -, -, -⟩
  rw [hwf] at h
  exact absurd h (show (0 : ℕ) ≠ p.pid by omega)

theorem SlotStep.procOk (h : SlotStep s t a) (hn : s.kernel.nextpid ≤ t.kernel.nextpid)
    (hs : TableInv s) : ProcOk t.kernel.nextpid (t.proc a) := by
  have hpos := hs.next
  cases h with
  | keeps hk => exact ((hs.proc a).keeps hk).mono hn
  | own ho => exact ho.ok.mono hn
  | alloc hu hu' hpid hn' hwf =>
    refine ⟨fun hc => ?_, fun _ => ?_, ?_, ?_, ?_, ?_, ?_⟩
    · rw [hu'] at hc; cases hc
    · rw [hpid, hn']; omega
    all_goals simp [hwf, Membership.init, hu']
    omega
  | free _ hu hpid hwf => exact procOk_free hu hpid hwf (by omega)
  | store i _ _ hlive _ hpid hstate _ _ hkey hlead hreg htype hgen =>
    have hid := key_id hkey
    have hsrc := (hs.proc i).mono hn
    have hdst := (hs.proc a).mono hn
    refine ⟨fun hc => ?_, fun _ => ?_, ?_, fun hw => ?_, ?_, ?_, ?_⟩
    · exact absurd (hstate ▸ hc) hlive.1
    · rw [hpid]; exact hdst.pid hlive.1
    · rw [hid]; exact hsrc.id
    · rw [htype]; exact ⟨(hsrc.type (hid ▸ hw)).1, hgen⟩
    · rw [hreg]; simp
    · rw [hlead]; simp
    · intro _; exact hreg
  | born _ hpid hstate hlive hid hkey hlead hreg =>
    have hw := key_id hkey
    have hsrc := (hs.proc a).mono hn
    refine ⟨fun hc => ?_, fun _ => ?_, ?_, fun h => ?_, fun hr => ?_, fun hl => ?_, fun hz => ?_⟩
    · exact absurd (hstate ▸ hc) hlive.1
    · rw [hpid]; exact hsrc.pid hlive.1
    · rw [hw]; exact hsrc.id
    · rw [hid]; exact hsrc.type (hw ▸ h)
    · rw [outside_key hkey]; exact hreg hr
    · rw [hw, hpid]; exact hsrc.leader (hlead ▸ hl)
    · exact absurd (hstate ▸ hz) hlive.2

/-- A slot that is in use after the step keeps its pid, or it was just allocated. -/
theorem SlotStep.pid (h : SlotStep s t a) (hu : (t.proc a).state ≠ .unused) :
    ((t.proc a).pid = (s.proc a).pid ∧ (s.proc a).state ≠ .unused) ∨
      ((t.proc a).pid = s.kernel.nextpid ∧ (t.proc a).wf = Membership.init) := by
  cases h with
  | keeps hk => exact .inl ⟨hk.pid, fun h => hu (hk.unused.2 h)⟩
  | own ho => exact .inl ⟨ho.pid, fun h => hu (ho.unused.2 h)⟩
  | alloc _ _ hpid _ hwf => exact .inr ⟨hpid, hwf⟩
  | free _ hu' => exact absurd hu' hu
  | store _ _ _ hlive _ hpid => exact .inl ⟨hpid, hlive.1⟩
  | born _ hpid _ hlive => exact .inl ⟨hpid, hlive.1⟩

/-- What a process owns stays its own. -/
theorem SlotStep.owns (h : SlotStep s t a) (hs : TableInv s) (hu : (t.proc a).state ≠ .unused)
    {g : ℕ} (ho : (s.proc a).Owns g) : (t.proc a).Owns g := by
  cases h with
  | keeps hk => exact hk.owns.2 ho
  | own hown => exact hown.owns g ho
  | alloc hu' =>
    obtain ⟨hpid, hwf⟩ := (hs.proc a).free hu'
    have hid := ho.id
    have hgen := ho.leader
    rw [hwf] at hgen
    exact absurd hgen.symm ho.pos
  | free _ hu' => exact absurd hu' hu
  | store _ _ _ hlive hwf => exact absurd ho (not_owns_init hwf ((hs.proc a).pid hlive.1).1 g)
  | born _ hpid _ _ hid hkey =>
    have h₁ := key_id hkey
    have h₂ := key_generation hkey
    exact ⟨by rw [h₁, hpid]; exact ho.id, h₂.trans ho.leader, by rw [hid]; exact ho.identity,
      ho.pos⟩

/-- **The invariant of the process table is kept.** -/
theorem TableInv.step (hs : TableInv s) (h : CascadeChange s t) : TableInv t := by
  obtain ⟨a, ha, hne⟩ := h.slot
  have hn := h.nextpid
  have hpos := hs.next
  have hslot : ∀ j, SlotStep s t j ∨ (s.proc j).Keeps (t.proc j) := fun j => by
    by_cases hj : j = a
    · subst hj; exact .inl ha
    · exact .inr (hne j hj).1
  have hproc : ∀ j, ProcOk t.kernel.nextpid (t.proc j) := by
    intro j
    rcases hslot j with hj | hj
    · exact hj.procOk hn hs
    · exact ((hs.proc j).keeps hj).mono hn
  have hpid : ∀ j, (t.proc j).state ≠ .unused →
      ((t.proc j).pid = (s.proc j).pid ∧ (s.proc j).state ≠ .unused) ∨
      (j = a ∧ (t.proc j).pid = s.kernel.nextpid ∧ (t.proc j).wf = Membership.init) := by
    intro j hu
    by_cases hj : j = a
    · subst hj
      rcases ha.pid hu with h | h
      · exact .inl h
      · exact .inr ⟨rfl, h⟩
    · have hk := (hne j hj).1
      exact .inl ⟨hk.pid, fun h => hu (hk.unused.2 h)⟩
  have howns : ∀ j g, (t.proc j).state ≠ .unused → (s.proc j).Owns g → (t.proc j).Owns g := by
    intro j g hu ho
    rcases hslot j with hj | hj
    · exact hj.owns hs hu ho
    · exact hj.owns.2 ho
  refine ⟨by omega, hproc, fun i j hi hj hij => ?_, fun i j hij hj hw => ?_⟩
  · rcases hpid i hi with ⟨hpi, hui⟩ | ⟨hia, hpi, -⟩ <;>
      rcases hpid j hj with ⟨hpj, huj⟩ | ⟨hja, hpj, -⟩
    · exact hs.pids i j hui huj (by rw [← hpi, ← hpj, hij])
    · have hlt := ((hs.proc i).pid hui).2
      omega
    · have hlt := ((hs.proc j).pid huj).2
      omega
    · rw [hia, hja]
  · -- the pid of `j` is not fresh: some record already names it
    have hold : ∀ k, (t.proc i).wf.key = (s.proc k).wf.key → (t.proc j).pid = (s.proc j).pid ∧
        (s.proc j).state ≠ .unused := by
      intro k hk
      have hw' := key_id hk
      have hlt := (hs.proc k).id
      rcases hpid j hj with h | ⟨-, hpj, -⟩
      · exact h
      · omega
    have hkeep : (t.proc i).wf.key = (s.proc i).wf.key →
        (t.proc j).Owns (t.proc i).wf.workflowLeaderGeneration := by
      intro hk
      obtain ⟨hpj, huj⟩ := hold i hk
      have hw' := key_id hk
      have hg := key_generation hk
      rw [hg]
      exact howns j _ hj (hs.origin i j hij huj (by rw [← hw', ← hpj, hw]))
    have hposj := ((hproc j).pid hj).1
    by_cases hia : i = a
    swap
    · exact hkeep (congrArg Membership.key (hne i hia).1.wf)
    subst hia
    cases ha with
    | keeps hk => exact hkeep (congrArg Membership.key hk.wf)
    | own ho =>
      rcases ho.key with hk | hk
      · exact hkeep hk
      · -- `i` names itself, so `j` is `i`
        have hlive : (t.proc i).state ≠ .unused := by
          intro hc
          have h0 := ((hproc i).free hc).1
          omega
        have hpids : i = j := by
          have hpij : (t.proc i).pid = (t.proc j).pid := hk.symm.trans hw
          have hkj := (hne j (Ne.symm hij)).1
          exact hs.pids i j (fun hc => hlive (ho.unused.2 hc)) (fun hc => hj (hkj.unused.2 hc))
            (by rw [← ho.pid, ← hkj.pid, hpij])
        exact absurd hpids hij
    | alloc _ _ _ _ hwf | free _ _ _ hwf =>
      rw [hwf] at hw
      have h0 : (0 : ℕ) = (t.proc j).pid := hw
      omega
    | store m hm _ hlive hwf hpi hstate hset hlive' hkey =>
      obtain ⟨hpj, huj⟩ := hold m hkey
      have hw' := key_id hkey
      have hg := key_generation hkey
      rw [hg]
      refine howns j _ hj ?_
      by_cases hmj : m = j
      · -- the child of the owner
        subst hmj
        have hown : (s.proc m).wf.workflowId = (s.proc m).pid := by rw [← hw', ← hpj, hw]
        have hleader := hset hown
        refine ⟨hown, rfl, hleader.symm, ?_⟩
        rw [hleader]
        exact ((hs.proc m).type (by rw [hown, ← hpj]; omega)).2
      · exact hs.origin m j hmj huj (by rw [← hw', ← hpj, hw])
    | born _ _ _ _ _ hkey => exact hkeep hkey

end

/-! ### One step -/

section

variable {s t : CascadeState} {i j a : Slot} {p q : Proc} {n : ℕ} {c : Call}

theorem forkOk_of_child (h : c.child = none) : ForkOk s i c := by
  cases c <;> trivial

/-- A step of a thread that makes no child. -/
theorem ThreadInv.moveAlone (h : ThreadInv s) (hi : s.calls i ≠ .idle) (hcc : c.child = none)
    (hc : t.calls = Function.update s.calls i c) (hl : t.lock = s.lock)
    (hp : ∀ j, j ≠ i → (s.proc j).Keeps (t.proc j)) (hok : ThreadOk (t.proc i) c) :
    ThreadInv t := by
  refine h.move hi hc ?_ (fun _ _ _ => by rw [hl]) (fun j hj _ _ => hp j hj) hok
    (forkOk_of_child hcc)
  intro j hj
  rw [hcc] at hj; cases hj

theorem joining_congr (h : t.calls = s.calls) : s.Joining j ↔ t.Joining j := by
  unfold CascadeState.Joining
  rw [h]

theorem joining_goto (hc : t.calls = Function.update s.calls i c) (h₁ : s.calls i ≠ .forkJoin j)
    (h₂ : c ≠ .forkJoin j) : s.Joining j ↔ t.Joining j := by
  unfold CascadeState.Joining
  rw [hc]
  refine exists_congr fun k => ?_
  by_cases hk : k = i
  · subst hk; rw [Function.update_self]; exact iff_of_false h₁ h₂
  · rw [Function.update_of_ne hk]

theorem held_congr (h : ∀ j, (t.proc j).wf = (s.proc j).wf) : t.held = s.held :=
  funext fun j => congrArg Membership.held (h j)

/-- One record changes, and who is registered with what. -/
theorem held_update (h : ∀ j, j ≠ a → (t.proc j).wf = (s.proc j).wf) :
    t.held = Function.update s.held a (t.proc a).wf.held := by
  funext j
  by_cases hj : j = a
  · subst hj; rw [Function.update_self]; rfl
  · rw [Function.update_of_ne hj]; exact congrArg Membership.held (h j hj)

/-- A step that keeps every record and both tables. -/
theorem CascadeChange.quiet (hr : Registry s.workflows s.held)
    (hp : ∀ j, (s.proc j).Keeps (t.proc j)) (hw : t.workflows = s.workflows)
    (hn : t.kernel.nextpid = s.kernel.nextpid) (hj : ∀ j, s.Joining j ↔ t.Joining j) :
    CascadeChange s t where
  nextpid := hn.ge
  active k hk := .inl (hw ▸ hk)
  registry := by rw [hw, held_congr fun j => (hp j).wf]; exact hr
  slot := ⟨0, .keeps (hp 0) (hj 0), fun j _ => ⟨hp j, hj j⟩⟩

/-- A step that changes one record and leaves the workflow table alone. -/
theorem CascadeChange.ofSlot (hr : Registry s.workflows s.held) (ha : SlotStep s t a)
    (hne : ∀ j, j ≠ a → (s.proc j).Keeps (t.proc j)) (hj : ∀ j, j ≠ a → (s.Joining j ↔ t.Joining j))
    (hw : t.workflows = s.workflows) (hn : s.kernel.nextpid ≤ t.kernel.nextpid)
    (hheld : (t.proc a).wf.held = (s.proc a).wf.held) : CascadeChange s t where
  nextpid := hn
  active k hk := .inl (hw ▸ hk)
  registry := by
    rw [hw, held_update fun j hj => (hne j hj).wf, hheld]
    exact (Function.update_eq_self a s.held).symm ▸ hr
  slot := ⟨a, ha, fun j h => ⟨hne j h, hj j h⟩⟩

theorem child_ne_joining (h : c.child = none) : c ≠ .forkJoin j := by
  rintro rfl; cases h

/-- A thread moves on and every record stays. -/
theorem gotoStep (hI : ThreadInv s) (hR : Registry s.workflows s.held) (hi : s.calls i ≠ .idle)
    (hs : (s.calls i).child = none) (hcc : c.child = none) (hok : ThreadOk (s.proc i) c) :
    CascadeChange s (s.goto i c) ∧ ThreadInv (s.goto i c) :=
  ⟨.quiet hR (fun _ => Proc.Keeps.refl _) rfl rfl fun _ =>
      joining_goto rfl (child_ne_joining hs) (child_ne_joining hcc),
    hI.moveAlone hi hcc rfl rfl (fun _ _ => Proc.Keeps.refl _) hok⟩

/-- A thread stores in its own record. -/
theorem ownStep (hI : ThreadInv s) (hi : s.calls i ≠ .idle) (hs : (s.calls i).child = none)
    (hcc : c.child = none) (hc : t.calls = Function.update s.calls i c) (hl : t.lock = s.lock)
    (hn : t.kernel.nextpid = s.kernel.nextpid) (hne : ∀ j, j ≠ i → t.proc j = s.proc j)
    (hown : OwnStore s.kernel.nextpid (s.proc i) (t.proc i))
    (hact : ∀ k, Active t.workflows k → Active s.workflows k ∨ ¬ Recorded s.workflows k ∧
      ∃ m, s.calls m = .markCreate ∧ (s.proc m).wf.key = k)
    (hreg : Registry t.workflows (Function.update s.held i (t.proc i).wf.held))
    (hok : ThreadOk (t.proc i) c) : CascadeChange s t ∧ ThreadInv t := by
  have hkeeps : ∀ j, j ≠ i → (s.proc j).Keeps (t.proc j) := fun j hj => by
    rw [hne j hj]; exact Proc.Keeps.refl _
  have hjoin : ∀ j, s.Joining j ↔ t.Joining j := fun j =>
    joining_goto hc (child_ne_joining hs) (child_ne_joining hcc)
  refine ⟨⟨hn.ge, hact, ?_, i, .own hown (hjoin i), fun j hj => ⟨hkeeps j hj, hjoin j⟩⟩,
    hI.moveAlone hi hcc hc hl hkeeps hok⟩
  rw [held_update fun j hj => (hkeeps j hj).wf]
  exact hreg

/-- As `ownStep`, where the workflow table and what the process is registered with stay. -/
theorem storeStep (hI : ThreadInv s) (hR : Registry s.workflows s.held) (hi : s.calls i ≠ .idle)
    (hs : (s.calls i).child = none) (hcc : c.child = none)
    (hc : t.calls = Function.update s.calls i c) (hl : t.lock = s.lock)
    (hn : t.kernel.nextpid = s.kernel.nextpid) (hw : t.workflows = s.workflows)
    (hne : ∀ j, j ≠ i → t.proc j = s.proc j)
    (hown : OwnStore s.kernel.nextpid (s.proc i) (t.proc i))
    (hheld : (t.proc i).wf.held = (s.proc i).wf.held)
    (hok : ThreadOk (t.proc i) c) : CascadeChange s t ∧ ThreadInv t := by
  refine ownStep hI hi hs hcc hc hl hn hne hown (fun k hk => .inl (hw ▸ hk)) ?_ hok
  rw [hw, hheld]
  exact (Function.update_eq_self i s.held).symm ▸ hR

/-- The invariant of a record that is in use. -/
theorem ProcOk.ofLive (hl : q.live) (hpid : 0 < q.pid ∧ q.pid < n) (hid : q.wf.workflowId < n)
    (htype : q.wf.workflowId ≠ 0 →
      q.ident.agentType ≠ agentTypeNormal ∧ q.ident.identityGeneration ≠ 0)
    (hreg : q.wf.workflowMemberRegistered = true → ¬ q.wf.outside)
    (hlead : q.wf.isWorkflowLeader = true → q.wf.workflowId = q.pid) : ProcOk n q :=
  ⟨fun hu => absurd hu hl.1, fun _ => hpid, hid, htype, hreg, hlead, fun hz => absurd hz hl.2⟩

/-- Registered or not, in the workflow it is in. -/
theorem ownStore_registered (hp : ProcOk n p) (hl : p.live) (b : Bool)
    (hout : b = true → ¬ p.wf.outside) (hq : q.state = p.state ∧ q.pid = p.pid ∧
      q.killed = p.killed ∧ q.ident = p.ident ∧
      q.wf = { p.wf with workflowMemberRegistered := b }) : OwnStore n p q := by
  obtain ⟨hstate, hpid, hkill, hid, hwf⟩ := hq
  have hlive : q.live := by unfold Proc.live; rw [hstate]; exact hl
  refine ⟨hpid, by rw [hstate], fun _ => hl, hkill, .ofLive hlive ?_ ?_ ?_ ?_ ?_, ?_, ?_⟩
  · rw [hpid]; exact hp.pid hl.1
  · rw [hwf]; exact hp.id
  · rw [hwf, hid]; exact hp.type
  · rw [hwf]; exact hout
  · rw [hwf, hpid]; exact hp.leader
  · left; rw [hwf]; rfl
  · rintro g ⟨h₁, h₂, h₃, h₄⟩
    refine ⟨?_, ?_, ?_, h₄⟩
    · rw [hwf, hpid]; exact h₁
    · rw [hwf]; exact h₂
    · rw [hid]; exact h₃

/-! ### `agent_mark_current` -/

theorem nextIdentity_ne (g : AgentGlobal) : (agentNextIdentity g).2 ≠ 0 := by
  unfold agentNextIdentity
  dsimp only
  split <;> omega

/-- `agent_mark_current` stays out of the workflow up to its stores, and leaves an Agent with an
identity, its old one if it had one. -/
theorem markCurrent_ident {k k' : Kernel} {ty hb : ℤ} {quota now now' : ℕ} {u : Bool}
    (h : k.markCurrent i ty hb quota u now now' = some k') :
    k'.agentGlobal.workflows = k.agentGlobal.workflows ∧ (k'.procs i).wf = (k.procs i).wf ∧
      (k'.procs i).killed = (k.procs i).killed ∧
      (k'.procs i).ident.agentType ≠ agentTypeNormal ∧
      (k'.procs i).ident.identityGeneration ≠ 0 ∧
      ((k.procs i).ident.identityGeneration ≠ 0 →
        (k'.procs i).ident.identityGeneration = (k.procs i).ident.identityGeneration) := by
  unfold Kernel.markCurrent at h
  dsimp only at h
  have hframe : ∀ p, p = (if (k.procs i).ctx.contextRegionStart = 0 then markRegion (k.procs i)
      else k.procs i) → p.wf = (k.procs i).wf ∧ p.killed = (k.procs i).killed ∧
        p.ident = (k.procs i).ident := by
    rintro p rfl
    split <;> exact ⟨rfl, rfl, rfl⟩
  split at h
  · cases h
  generalize hp : (if (k.procs i).ctx.contextRegionStart = 0 then markRegion (k.procs i)
      else k.procs i) = p at h
  obtain ⟨hwf, hkill, hid⟩ := hframe p hp.symm
  rw [hid] at h
  split at h
  · rename_i h0
    simp only [Option.some.injEq] at h
    subst h
    refine ⟨rfl, ?_, ?_, ?_, ?_, fun hne => absurd h0 hne⟩
    · simpa [markStores] using hwf
    · simpa [markStores] using hkill
    · simpa [markStores, markIdent] using markType_ne ty
    · simpa [markStores, markIdent, hid, h0] using nextIdentity_ne k.agentGlobal
  · rename_i h0
    simp only [Option.some.injEq] at h
    subst h
    refine ⟨rfl, ?_, ?_, ?_, ?_, fun _ => ?_⟩
    · simpa [markStores] using hwf
    · simpa [markStores] using hkill
    · simpa [markStores, markIdent] using markType_ne ty
    · simp [markStores, markIdent, hid, h0]
    · simp [markStores, markIdent, hid, h0]

theorem markStep {ty hb : ℤ} {quota now now' : ℕ} {u : Bool} {k : Kernel} (hT : TableInv s)
    (hI : ThreadInv s) (hR : Registry s.workflows s.held) (hc : s.calls i = .kernel)
    (h : s.kernel.markCurrent i ty hb quota u now now' = some k) :
    CascadeChange s ({ s with kernel := k }.goto i (.markLeave (markType ty))) ∧
      ThreadInv ({ s with kernel := k }.goto i (.markLeave (markType ty))) := by
  obtain ⟨hn, hpid, hstate, hne⟩ : k.nextpid = s.kernel.nextpid ∧
      (k.procs i).pid = (s.proc i).pid ∧ (k.procs i).state = (s.proc i).state ∧
      ∀ j, j ≠ i → k.procs j = s.proc j := markCurrent_frame i h
  obtain ⟨hw, hwf, hkill, htype, hgen, hsame⟩ : k.agentGlobal.workflows = s.workflows ∧
      (k.procs i).wf = (s.proc i).wf ∧ (k.procs i).killed = (s.proc i).killed ∧
      (k.procs i).ident.agentType ≠ agentTypeNormal ∧
      (k.procs i).ident.identityGeneration ≠ 0 ∧
      ((s.proc i).ident.identityGeneration ≠ 0 →
        (k.procs i).ident.identityGeneration = (s.proc i).ident.identityGeneration) :=
    markCurrent_ident h
  have hth := hI.thread i
  rw [hc] at hth
  obtain ⟨hlive, hset, htied⟩ := hth
  have hp := hT.proc i
  set q := k.procs i with hq
  have hlive' : q.live := by unfold Proc.live; rw [hstate]; exact hlive
  -- a process with a workflow has an identity already
  have hidw : (s.proc i).wf.workflowId ≠ 0 → q.ident.identityGeneration =
      (s.proc i).ident.identityGeneration := fun h0 => hsame (hp.type h0).2
  have hset' : q.Settled := by
    intro hw'
    rw [hwf, hpid] at hw'
    have h0 : (s.proc i).wf.workflowId ≠ 0 := by
      rw [hw']; exact ((hp.pid hlive.1).1).ne'
    rw [hwf, hidw h0]
    exact hset hw'
  have hown : OwnStore s.kernel.nextpid (s.proc i) q := by
    refine ⟨hpid, by rw [hstate], fun _ => hlive, hkill, .ofLive hlive' ?_ ?_ ?_ ?_ ?_, ?_, ?_⟩
    · rw [hpid]; exact hp.pid hlive.1
    · rw [hwf]; exact hp.id
    · exact fun _ => ⟨htype, hgen⟩
    · rw [hwf]; exact hp.registered
    · rw [hwf, hpid]; exact hp.leader
    · exact .inl (congrArg Membership.key hwf)
    · rintro g ⟨h₁, h₂, h₃, h₄⟩
      refine ⟨?_, ?_, ?_, h₄⟩
      · rw [hwf, hpid]; exact h₁
      · rw [hwf]; exact h₂
      · rw [hsame fun h0 => h₄ (h₃.symm.trans h0)]; exact h₃
  refine storeStep hI hR (by simp [hc]) (by simp [hc, Call.child]) rfl rfl rfl hn hw hne hown ?_ ?_
  · exact congrArg Membership.held hwf
  · refine ⟨hlive', hset', ?_, htype, hgen⟩
    change q.wf.workflowMemberRegistered = true ∨ q.wf.outside ∨ q.wf.workflowId = q.pid
    rw [hwf, hpid]
    exact htied

theorem leaveStep (hT : TableInv s) (hI : ThreadInv s) (hR : Registry s.workflows s.held)
    (hn : s.next (.leave i) = some t) : CascadeChange s t ∧ ThreadInv t := by
  have hp := hT.proc i
  have hth := hI.thread i
  have hpos : s.calls i ≠ .idle → 0 < (s.proc i).pid := fun hi => (hp.pid (hth.live hi).1).1
  obtain ⟨hwf, hact, hreg⟩ := leave_cases (g := s.kernel.agentGlobal) (i := i)
    (m := (s.proc i).wf) hR rfl hp.registered
  simp only [CascadeState.next] at hn
  split at hn
  · rename_i type hc
    rw [hc] at hth
    obtain ⟨hlive, hset, htied, htype, hgen⟩ := hth
    split at hn
    · -- a Primary leaves the workflow it was in
      simp only [Option.some.injEq] at hn
      subst hn
      refine ownStep hI (by simp [hc]) (by simp [hc, Call.child]) rfl rfl rfl rfl
        (fun j hj => CascadeState.setProc_ne _ _ _ _ hj) ?_ (fun k hk => .inl (hact k hk)) ?_ ?_
      · refine ownStore_registered hp hlive false (by simp) ?_
        simp [CascadeState.setWf, hwf]
      · simpa [CascadeState.setWf, hwf, Membership.held] using hreg
      · simp only [CascadeState.goto_proc, CascadeState.setWf, CascadeState.setProc_self, hwf]
        exact ⟨hlive, rfl, htype, hgen⟩
    · have hown : OwnStore s.kernel.nextpid (s.proc i)
          { s.proc i with wf := { (s.proc i).wf with isWorkflowLeader := false } } := by
        refine ⟨rfl, .rfl, fun _ => hlive, rfl, ?_, .inl rfl, fun g h => ⟨h.1, h.2, h.3, h.4⟩⟩
        exact .ofLive hlive (hp.pid hlive.1) hp.id hp.type hp.registered (by simp)
      split at hn
      · rename_i hout
        have hreg0 : (s.proc i).wf.workflowMemberRegistered = false := by
          by_contra hr
          exact hp.registered (by simpa using hr) hout
        simp only [Option.some.injEq] at hn
        subst hn
        refine storeStep hI hR (by simp [hc]) (by simp [hc, Call.child]) rfl rfl rfl rfl rfl
          (fun j hj => CascadeState.setProc_ne _ _ _ _ hj) ?_ ?_ ?_
        · simpa [CascadeState.setWf] using hown
        · simp [CascadeState.setWf, Membership.held, Membership.key]
        · simp only [CascadeState.goto_proc, CascadeState.setWf, CascadeState.setProc_self]
          exact ⟨hlive, hreg0, htype, hgen⟩
      rename_i hout
      split at hn
      · rename_i hreg0
        have hid : (s.proc i).wf.workflowId = (s.proc i).pid := by
          rcases htied with hr | h0 | hid
          · exact absurd (hreg0.symm.trans hr) (by decide)
          · exact absurd h0 hout
          · exact hid
        simp only [Option.some.injEq] at hn
        subst hn
        refine storeStep hI hR (by simp [hc]) (by simp [hc, Call.child]) rfl rfl rfl rfl rfl
          (fun j hj => CascadeState.setProc_ne _ _ _ _ hj) ?_ ?_ ?_
        · simpa [CascadeState.setWf] using hown
        · simp [CascadeState.setWf, Membership.held, Membership.key]
        · simp only [CascadeState.goto_proc, CascadeState.setWf, CascadeState.setProc_self]
          exact ⟨hlive, hset, hreg0, hid, hout⟩
      · simp only [Option.some.injEq] at hn
        subst hn
        refine storeStep hI hR (by simp [hc]) (by simp [hc, Call.child]) rfl rfl rfl rfl rfl
          (fun j hj => ?_) ?_ ?_ ?_
        · exact (CascadeState.setProc_ne _ _ _ _ hj).trans (CascadeState.setProc_ne _ _ _ _ hj)
        · simp only [CascadeState.markDone, CascadeState.goto_proc, CascadeState.setWf,
            CascadeState.setProc_self]
          exact ⟨hown.pid, hown.unused, hown.live, hown.killed,
            ⟨hown.ok.1, hown.ok.2, hown.ok.3, hown.ok.4, hown.ok.5, hown.ok.6, hown.ok.7⟩,
            hown.key, fun g h => ⟨h.1, h.2, h.3, h.4⟩⟩
        · simp [CascadeState.markDone, CascadeState.setWf, markContext, Membership.held,
            Membership.key]
        · simp only [CascadeState.markDone, CascadeState.goto_proc, CascadeState.setWf,
            CascadeState.setProc_self]
          exact ⟨hlive, hset, htied⟩
  · -- `agent_proc_exit`
    rename_i hc
    rw [hc] at hth
    have hlive : (s.proc i).live := hth
    simp only [Option.some.injEq] at hn
    subst hn
    refine ownStep hI (by simp [hc]) (by simp [hc, Call.child]) rfl rfl rfl rfl
      (fun j hj => CascadeState.setProc_ne _ _ _ _ hj) ?_ (fun k hk => .inl (hact k hk)) ?_ ?_
    · refine ownStore_registered hp hlive false (by simp) ?_
      simp [CascadeState.setWf, hwf]
    · simpa [CascadeState.setWf, hwf, Membership.held] using hreg
    · simp only [CascadeState.goto_proc, CascadeState.setWf, CascadeState.setProc_self, hwf]
      exact ⟨hlive, rfl⟩
  · cases hn

theorem storeIdStep (hT : TableInv s) (hI : ThreadInv s) (hR : Registry s.workflows s.held)
    (hn : s.next (.storeId i) = some t) : CascadeChange s t ∧ ThreadInv t := by
  have hp := hT.proc i
  have hth := hI.thread i
  simp only [CascadeState.next] at hn
  split at hn
  · rename_i type hc
    rw [hc] at hth
    obtain ⟨hlive, hreg0, htype, hgen⟩ := hth
    simp only [Option.some.injEq] at hn
    subst hn
    refine storeStep hI hR (by simp [hc]) (by simp [hc, Call.child]) rfl rfl rfl rfl rfl
      (fun j hj => CascadeState.setProc_ne _ _ _ _ hj) ?_ ?_ ?_
    · simp only [CascadeState.goto_proc, CascadeState.setWf, CascadeState.setProc_self]
      refine ⟨rfl, .rfl, fun _ => hlive, rfl, .ofLive hlive (hp.pid hlive.1) (hp.pid hlive.1).2
        (fun _ => ⟨htype, hgen⟩) ?_ (fun _ => rfl), .inr rfl, fun g h => ⟨rfl, h.2, h.3, h.4⟩⟩
      intro hr
      exact absurd (hreg0.symm.trans hr) (by decide)
    · simp [CascadeState.setWf, Membership.held, hreg0]
    · simp only [CascadeState.goto_proc, CascadeState.setWf, CascadeState.setProc_self]
      exact ⟨hlive, hreg0, htype, hgen, rfl⟩
  · cases hn

theorem storeOwnStep (hT : TableInv s) (hI : ThreadInv s) (hR : Registry s.workflows s.held)
    (hn : s.next (.storeOwn i) = some t) : CascadeChange s t ∧ ThreadInv t := by
  have hp := hT.proc i
  have hth := hI.thread i
  simp only [CascadeState.next] at hn
  split at hn
  · rename_i type hc
    rw [hc] at hth
    obtain ⟨hlive, hreg0, htype, hgen, hid⟩ := hth
    simp only [Option.some.injEq] at hn
    subst hn
    refine storeStep hI hR (by simp [hc]) (by simp [hc, Call.child]) rfl rfl rfl rfl rfl
      (fun j hj => CascadeState.setProc_ne _ _ _ _ hj) ?_ ?_ ?_
    · simp only [CascadeState.goto_proc, CascadeState.setProc_self]
      refine ⟨rfl, .rfl, fun _ => hlive, rfl, .ofLive hlive (hp.pid hlive.1) hp.id
        (fun _ => ⟨htype, hgen⟩) ?_ (fun _ => hid), .inr hid, fun g h => ⟨h.1, h.3, h.3, h.4⟩⟩
      intro hr
      exact absurd (hreg0.symm.trans hr) (by decide)
    · simp [Membership.held, hreg0]
    · simp only [CascadeState.goto_proc, CascadeState.setProc_self]
      exact ⟨hlive, fun _ => rfl, hid⟩
  · cases hn

theorem createStep (hT : TableInv s) (hI : ThreadInv s) (hR : Registry s.workflows s.held)
    (hn : s.next (.create i) = some t) : CascadeChange s t ∧ ThreadInv t := by
  have hp := hT.proc i
  have hth := hI.thread i
  simp only [CascadeState.next] at hn
  split at hn
  swap
  · cases hn
  rename_i hc
  rw [hc] at hth
  obtain ⟨hlive, hset, hid⟩ := hth
  have hpid := (hp.pid hlive.1).1
  have hout : ¬ (s.proc i).wf.outside := by
    rintro (h0 | h0)
    · omega
    · exact (hp.type (by omega)).2 ((hset hid).symm.trans h0)
  split at hn
  · simp only [Option.some.injEq] at hn
    subst hn
    refine storeStep hI hR (by simp [hc]) (by simp [hc, Call.child]) rfl rfl rfl rfl rfl
      (fun j hj => CascadeState.setProc_ne _ _ _ _ hj) ?_ ?_ ?_
    · rename_i hr
      refine ownStore_registered hp hlive true (fun _ => hout) ?_
      simp [CascadeState.markDone, markContext, ← hr]
    · simp [CascadeState.markDone, markContext]
    · simp only [CascadeState.markDone, CascadeState.goto_proc, CascadeState.setProc_self]
      exact ⟨hlive, hset, .inr (.inr hid)⟩
  · rename_i hr
    have hnone : s.held i = none := by simp [CascadeState.held, Membership.held, hr]
    have hne : ∀ (g : AgentGlobal) (m : Membership) (j : Slot), j ≠ i →
        (((s.setGlobal g).setWf i m).markDone i).proc j = s.proc j := fun g m j hj =>
      (CascadeState.setProc_ne _ _ _ _ hj).trans (CascadeState.setProc_ne _ _ _ _ hj)
    simp only [Option.some.injEq] at hn
    subst hn
    refine ownStep hI (by simp [hc]) (by simp [hc, Call.child]) rfl rfl rfl rfl (hne _ _) ?_ ?_ ?_ ?_
    · refine ownStore_registered hp hlive
        ((agentWorkflowCreate s.kernel.agentGlobal (s.proc i).wf).2 == agentToolOk)
        (fun _ => hout) ?_
      simp [CascadeState.markDone, CascadeState.setWf, markContext]
    · intro k hk
      rcases create_cases (g := s.kernel.agentGlobal) (m := (s.proc i).wf) hR hnone with
        ⟨-, hg⟩ | ⟨-, hact, -⟩
      · change Active (agentWorkflowCreate s.kernel.agentGlobal (s.proc i).wf).1.workflows k at hk
        rw [hg] at hk
        exact .inl hk
      · rcases hact k hk with ha | ⟨hkm, hrec⟩
        · exact .inl ha
        · exact .inr ⟨hrec, i, hc, hkm.symm⟩
    · simp only [CascadeState.markDone, CascadeState.setWf, CascadeState.goto_proc,
        CascadeState.setProc_self, CascadeState.goto_workflows, CascadeState.setProc_workflows,
        CascadeState.setGlobal_workflows, markContext]
      rcases create_cases (g := s.kernel.agentGlobal) (m := (s.proc i).wf) hR hnone with
        ⟨hbad, hg⟩ | ⟨hgood, -, hreg⟩
      · have hb : ((agentWorkflowCreate s.kernel.agentGlobal (s.proc i).wf).2 == agentToolOk) =
            false := by simpa using hbad
        rw [hg, hb]
        have heq : Function.update s.held i none = s.held := by
          rw [← hnone, Function.update_eq_self]
        have hR' : Registry s.kernel.agentGlobal.workflows s.held := hR
        simpa [Membership.held, heq] using hR'
      · simpa [hgood, Membership.held, Membership.key] using hreg
    · simp only [CascadeState.markDone, CascadeState.goto_proc, CascadeState.setProc_self,
        CascadeState.setWf]
      exact ⟨hlive, hset, .inr (.inr hid)⟩

theorem joinStep (hT : TableInv s) (hI : ThreadInv s) (hR : Registry s.workflows s.held)
    (hn : s.next (.join i) = some t) : CascadeChange s t ∧ ThreadInv t := by
  have hp := hT.proc i
  have hth := hI.thread i
  simp only [CascadeState.next] at hn
  split at hn
  swap
  · cases hn
  rename_i hc
  rw [hc] at hth
  obtain ⟨hlive, hset, hreg0, hid, hout⟩ := hth
  have hnone : s.held i = none := by simp [CascadeState.held, Membership.held, hreg0]
  rcases join_cases (g := s.kernel.agentGlobal) (m := (s.proc i).wf) hR hout hnone with
    ⟨hbad, hg⟩ | ⟨hgood, -, hact, hreg⟩
  · rw [if_neg hbad, hg] at hn
    have heq : s.setGlobal s.kernel.agentGlobal = s := rfl
    rw [heq, Option.some.injEq] at hn
    subst hn
    exact gotoStep hI hR (by simp [hc]) (by simp [hc, Call.child]) rfl ⟨hlive, hset, .inr (.inr hid)⟩
  · rw [if_pos hgood] at hn
    have hne : ∀ (g : AgentGlobal) (m : Membership) (j : Slot), j ≠ i →
        (((s.setGlobal g).setWf i m).markDone i).proc j = s.proc j := fun g m j hj =>
      (CascadeState.setProc_ne _ _ _ _ hj).trans (CascadeState.setProc_ne _ _ _ _ hj)
    simp only [Option.some.injEq] at hn
    subst hn
    refine ownStep hI (by simp [hc]) (by simp [hc, Call.child]) rfl rfl rfl rfl (hne _ _) ?_
      (fun k hk => .inl (hact k hk)) ?_ ?_
    · refine ownStore_registered hp hlive true (fun _ => hout) ?_
      simp [CascadeState.markDone, CascadeState.setWf, markContext]
    · simpa [CascadeState.markDone, CascadeState.setWf, markContext, Membership.held,
        Membership.key] using hreg
    · simp only [CascadeState.markDone, CascadeState.goto_proc, CascadeState.setProc_self,
        CascadeState.setWf]
      exact ⟨hlive, hset, .inr (.inr hid)⟩

/-! ### `fork` -/

/-- A thread that forks changes the record and the lock of its child. -/
theorem childStep (hI : ThreadInv s) (hi : s.calls i ≠ .idle) (hij : i ≠ j)
    (hcalls : t.calls = Function.update s.calls i c) (hlk : ∀ k, k ≠ j → t.lock k = s.lock k)
    (hnext : s.kernel.nextpid ≤ t.kernel.nextpid) (hne : ∀ k, k ≠ j → t.proc k = s.proc k)
    (hj : c.child = some j ∨ (s.calls i).child = some j)
    (hold : ∀ k, c.child = some k → (s.calls i).child = some k ∨ (s.proc k).state = .unused)
    (hslot : SlotStep s t j) (hjoin : ∀ k, k ≠ j → (s.Joining k ↔ t.Joining k))
    (hact : ∀ k, Active t.workflows k → Active s.workflows k)
    (hreg : Registry t.workflows (Function.update s.held j (t.proc j).wf.held))
    (hok : ThreadOk (s.proc i) c) (hfork : ForkOk t i c) : CascadeChange s t ∧ ThreadInv t := by
  have hkeeps : ∀ k, k ≠ j → (s.proc k).Keeps (t.proc k) := fun k hk => by
    rw [hne k hk]; exact Proc.Keeps.refl _
  have hnot : ∀ k, c.child ≠ some k → (s.calls i).child ≠ some k → k ≠ j := by
    rintro k h₁ h₂ rfl
    exact hj.elim h₁ h₂
  refine ⟨⟨hnext, fun k hk => .inl (hact k hk), ?_, j, hslot, fun k hk => ⟨hkeeps k hk, hjoin k hk⟩⟩,
    hI.move hi hcalls hold (fun k h₁ h₂ => hlk k (hnot k h₁ h₂))
      (fun k _ h₁ h₂ => hkeeps k (hnot k h₁ h₂)) (by rw [hne i hij]; exact hok) hfork⟩
  rw [held_update fun k hk => (hkeeps k hk).wf]
  exact hreg

/-- Who is registered with what stays as it is. -/
theorem registry_same (hR : Registry s.workflows s.held) (hw : t.workflows = s.workflows)
    (hheld : (t.proc j).wf.held = s.held j) :
    Registry t.workflows (Function.update s.held j (t.proc j).wf.held) := by
  rw [hw, hheld, Function.update_eq_self]
  exact hR

theorem fork_ne (hI : ThreadInv s) (hc : (s.calls i).child = some j) : i ≠ j := by
  rintro rfl
  rw [hI.idle i i hc] at hc
  cases hc

theorem forkStep (hT : TableInv s) (hI : ThreadInv s) (hR : Registry s.workflows s.held)
    (hn : s.next (.fork i j) = some t) : CascadeChange s t ∧ ThreadInv t := by
  have hth := hI.thread i
  simp only [CascadeState.next] at hn
  split at hn
  swap
  · cases hn
  rename_i h
  obtain ⟨hc, -, hu⟩ := h
  rw [hc] at hth
  have hij : i ≠ j := by
    rintro rfl
    exact hth.1.1 hu
  have hwf := ((hT.proc j).free hu).2
  simp only [Option.some.injEq] at hn
  have hcalls : t.calls = Function.update s.calls i (.forkCopy j) := by subst hn; rfl
  have hself : t.proc j = allocprocAt (s.proc j) s.kernel.nextpid := by
    subst hn; exact CascadeState.setProc_self _ _ _
  have hnext : t.kernel.nextpid = s.kernel.nextpid + 1 := by subst hn; rfl
  have hlk : t.lock = Function.update s.lock j (some i) := by subst hn; rfl
  refine childStep hI (by simp [hc]) hij hcalls (fun k hk => ?_) (by omega) (fun k hk => ?_)
    (.inl rfl) (fun k hk => ?_) (.alloc hu ?_ ?_ hnext ?_)
    (fun k _ => joining_goto hcalls (by simp [hc]) (by simp)) (fun k hk => ?_) ?_ hth
    ⟨by rw [hlk, Function.update_self], ?_, ?_⟩
  · rw [hlk, Function.update_of_ne hk]
  · subst hn
    exact CascadeState.setProc_ne _ _ _ _ hk
  · simp only [Call.child, Option.some.injEq] at hk
    subst hk
    exact .inr hu
  · rw [hself]; rfl
  · rw [hself]; rfl
  · rw [hself]; rfl
  · subst hn; exact hk
  · refine registry_same hR (by subst hn; rfl) ?_
    rw [hself, CascadeState.held, hwf]; rfl
  · rw [hself]; exact ⟨by simp [allocprocAt, agentInitProc], by simp [allocprocAt, agentInitProc]⟩
  · rw [hself]; rfl

theorem forkFailStep (hI : ThreadInv s) (hR : Registry s.workflows s.held)
    (hn : s.next (.forkFail i) = some t) : CascadeChange s t ∧ ThreadInv t := by
  have hth := hI.thread i
  have hfk := hI.fork i
  simp only [CascadeState.next] at hn
  split at hn
  swap
  · cases hn
  rename_i j hc
  have hchild : (s.calls i).child = some j := by rw [hc]; rfl
  rw [hc] at hth hfk
  obtain ⟨-, -, hwf⟩ := hfk
  simp only [Option.some.injEq] at hn
  have hcalls : t.calls = Function.update s.calls i .kernel := by subst hn; rfl
  have hself : t.proc j = freeproc (s.proc j) := by subst hn; exact CascadeState.setProc_self _ _ _
  have hlk : t.lock = Function.update s.lock j none := by subst hn; rfl
  refine childStep hI (by simp [hc]) (fork_ne hI hchild) hcalls (fun k hk => ?_) (by subst hn; rfl)
    (fun k hk => ?_) (.inr hchild) (fun k hk => ?_) (.free (hI.idle i j hchild) ?_ ?_ ?_)
    (fun k _ => joining_goto hcalls (by simp [hc]) (by simp)) (fun k hk => ?_) ?_ hth trivial
  · rw [hlk, Function.update_of_ne hk]
  · subst hn
    exact CascadeState.setProc_ne _ _ _ _ hk
  · cases hk
  · rw [hself]; rfl
  · rw [hself]; rfl
  · rw [hself]; rfl
  · subst hn; exact hk
  · refine registry_same hR (by subst hn; rfl) ?_
    rw [hself, CascadeState.held, hwf]; rfl

theorem forkStoreStep (hT : TableInv s) (hI : ThreadInv s) (hR : Registry s.workflows s.held)
    (hn : s.next (.forkStore i) = some t) : CascadeChange s t ∧ ThreadInv t := by
  have hth := hI.thread i
  have hfk := hI.fork i
  simp only [CascadeState.next] at hn
  split at hn
  swap
  · cases hn
  rename_i j hc
  have hchild : (s.calls i).child = some j := by rw [hc]; rfl
  have hij := fork_ne hI hchild
  rw [hc] at hth hfk
  obtain ⟨hlock, hlivej, hwf⟩ := hfk
  obtain ⟨hlive, hset, htied⟩ := hth
  simp only [Option.some.injEq] at hn
  obtain ⟨np, hnp⟩ : ∃ np, np = agentAfterFork { s.proc j with sz := (s.proc i).sz } (s.proc i)
      (agentNextIdentity s.kernel.agentGlobal).2 := ⟨_, rfl⟩
  rw [← hnp] at hn
  have hcalls : t.calls = Function.update s.calls i (.forkJoin j) := by subst hn; rfl
  have hlk : t.lock = s.lock := by subst hn; rfl
  have hself : t.proc j = np := by subst hn; exact CascadeState.setProc_self _ _ _
  have hstate : np.state = (s.proc j).state := by rw [hnp]; rfl
  have hpid : np.pid = (s.proc j).pid := by rw [hnp]; rfl
  refine childStep hI (by simp [hc]) hij hcalls (fun k _ => by rw [hlk]) (by subst hn; rfl)
    (fun k hk => ?_) (.inl rfl) (fun k hk => ?_)
    (.store i hij (hI.idle i j hchild) hlivej hwf ?_ ?_ hset hlive ?_ ?_ ?_ ?_ ?_ ?_)
    (fun k hk => ?_) (fun k hk => ?_) ?_ ⟨hlive, hset, htied⟩
    ⟨by rw [hlk]; exact hlock, ?_, ?_, ?_⟩
  · subst hn
    exact CascadeState.setProc_ne _ _ _ _ hk
  · left
    rw [hc]
    exact hk
  · rw [hself]; exact hpid
  · rw [hself]; exact hstate
  · rw [hself, hnp]; rfl
  · rw [hself, hnp]; rfl
  · rw [hself, hnp]; rfl
  · rw [hself, hnp]; rfl
  · rw [hself, hnp]; exact nextIdentity_ne _
  · exact ⟨i, by rw [hcalls, Function.update_self]⟩
  · refine joining_goto hcalls (by simp [hc]) ?_
    simp only [ne_eq, Call.forkJoin.injEq]
    exact Ne.symm hk
  · subst hn; exact hk
  · refine registry_same hR (by subst hn; rfl) ?_
    rw [hself, hnp, CascadeState.held, hwf]; rfl
  · rw [hself]
    unfold Proc.live
    rw [hstate]
    exact hlivej
  · -- nobody's workflow is named by the pid of the child
    rw [hself]
    intro hid
    have hid' : (s.proc i).wf.workflowId = (s.proc j).pid := by
      rw [← hpid, ← hid, hnp]; rfl
    have hposj := ((hT.proc j).pid hlivej.1).1
    exact absurd (hT.origin i j hij hlivej.1 hid') (not_owns_init hwf hposj _)
  · rw [hself, hnp]; rfl

theorem forkJoinStep (hI : ThreadInv s) (hR : Registry s.workflows s.held)
    (hn : s.next (.forkJoin i) = some t) : CascadeChange s t ∧ ThreadInv t := by
  have hth := hI.thread i
  have hfk := hI.fork i
  simp only [CascadeState.next] at hn
  split at hn
  swap
  · cases hn
  rename_i j hc
  have hchild : (s.calls i).child = some j := by rw [hc]; rfl
  have hij := fork_ne hI hchild
  have hnone : s.held j = none := by
    rw [hc] at hfk
    simp [CascadeState.held, Membership.held, hfk.2.2.2]
  rw [hc] at hth hfk
  obtain ⟨hlock, hlivej, hsetj, hregj⟩ := hfk
  have hcalls : t.calls = Function.update s.calls i (.forkRelease j) := by
    split at hn <;> simp only [Option.some.injEq] at hn <;> subst hn <;> rfl
  have hlk : t.lock = s.lock := by
    split at hn <;> simp only [Option.some.injEq] at hn <;> subst hn <;> rfl
  have hnext : t.kernel.nextpid = s.kernel.nextpid := by
    split at hn <;> simp only [Option.some.injEq] at hn <;> subst hn <;> rfl
  have hne : ∀ k, k ≠ j → t.proc k = s.proc k := by
    intro k hk
    split at hn <;> simp only [Option.some.injEq] at hn <;> subst hn
    · rfl
    · exact CascadeState.setProc_ne _ _ _ _ hk
  have hjoin : ∀ k, k ≠ j → (s.Joining k ↔ t.Joining k) := by
    intro k hk
    refine joining_goto hcalls ?_ (by simp)
    rw [hc]
    simp only [ne_eq, Call.forkJoin.injEq]
    exact Ne.symm hk
  -- what is left to show: what the child becomes, and the workflow table
  have hmain : ∀ np, t.proc j = np → np.pid = (s.proc j).pid → np.state = (s.proc j).state →
      np.ident = (s.proc j).ident → np.wf.key = (s.proc j).wf.key →
      np.wf.isWorkflowLeader = (s.proc j).wf.isWorkflowLeader →
      (np.wf.workflowMemberRegistered = true → ¬ (s.proc j).wf.outside) →
      ((s.proc j).wf.outside ∨ np.killed = true ∨ Active s.workflows (s.proc j).wf.key) →
      ((s.proc j).killed = true → np.killed = true) →
      (np.Tied ∨ np.killed = true) → (∀ k, Active t.workflows k → Active s.workflows k) →
      Registry t.workflows (Function.update s.held j np.wf.held) →
      CascadeChange s t ∧ ThreadInv t := by
    rintro np rfl hpid hstate hid hkey hlead hreg hkill hkept htied hact hregistry
    refine childStep hI (by simp [hc]) hij hcalls (fun k _ => by rw [hlk]) hnext.ge hne (.inl rfl)
      (fun k hk => .inl (by rw [hc]; exact hk))
      (.born (hI.idle i j hchild) hpid hstate hlivej hid hkey hlead hreg hkill hkept) hjoin hact
      hregistry hth ⟨by rw [hlk]; exact hlock, ?_, ?_, htied⟩
    · unfold Proc.live; rw [hstate]; exact hlivej
    · intro hw
      rw [key_generation hkey, hid]
      refine hsetj ?_
      rw [← key_id hkey, ← hpid]
      exact hw
  split at hn
  · rename_i hout
    simp only [Option.some.injEq] at hn
    have hself : t.proc j = s.proc j := by subst hn; rfl
    refine hmain (s.proc j) hself rfl rfl rfl rfl rfl (fun hr => ?_) (.inl hout) id
      (.inl (.inr (.inl hout))) (fun k hk => by subst hn; exact hk) ?_
    · exact absurd (hregj.symm.trans hr) (by decide)
    · rw [← hself]
      exact registry_same hR (by subst hn; rfl) (by rw [hself]; rfl)
  rename_i hout
  simp only [Option.some.injEq] at hn
  rcases join_cases (g := s.kernel.agentGlobal) (m := (s.proc j).wf) hR hout hnone with
    ⟨hbad, hg⟩ | ⟨hgood, hactive, hact, hreg⟩
  · rw [if_neg hbad, hg] at hn
    have hself : t.proc j = { s.proc j with killed := true } := by
      subst hn; exact CascadeState.setProc_self _ _ _
    refine hmain _ hself rfl rfl rfl rfl rfl (fun hr => ?_) (.inr (.inl rfl)) (fun _ => rfl) (.inr rfl)
      (fun k hk => by subst hn; exact hk) ?_
    · exact absurd (hregj.symm.trans hr) (by decide)
    · rw [← hself]
      exact registry_same hR (by subst hn; rfl) (by rw [hself]; rfl)
  · rw [if_pos hgood] at hn
    have hself : t.proc j = { s.proc j with wf.workflowMemberRegistered := true } := by
      subst hn; exact CascadeState.setProc_self _ _ _
    refine hmain _ hself rfl rfl rfl rfl rfl (fun _ => hout) (.inr (.inr hactive)) id
      (.inl (.inl rfl)) (fun k hk => by subst hn; exact hact k hk) ?_
    subst hn
    exact hreg

theorem forkReleaseStep (hI : ThreadInv s) (hR : Registry s.workflows s.held)
    (hn : s.next (.forkRelease i) = some t) : CascadeChange s t ∧ ThreadInv t := by
  have hth := hI.thread i
  have hfk := hI.fork i
  simp only [CascadeState.next] at hn
  split at hn
  swap
  · cases hn
  rename_i j hc
  rw [hc] at hth hfk
  simp only [Option.some.injEq] at hn
  subst hn
  refine ⟨.quiet hR (fun k => Proc.Keeps.refl _) rfl rfl fun k => ?_,
    hI.move (by simp [hc]) rfl (fun k hk => ?_) (fun k hk _ => ?_) (fun k _ _ _ => Proc.Keeps.refl _)
      hth hfk.2⟩
  · exact joining_goto rfl (by simp [hc]) (by simp)
  · left
    rw [hc]
    exact hk
  · simp only [CascadeState.goto_lock, CascadeState.setLock_lock]
    rw [Function.update_of_ne]
    rintro rfl
    exact hk rfl

theorem forkRunStep (hI : ThreadInv s) (hR : Registry s.workflows s.held)
    (hn : s.next (.forkRun i) = some t) : CascadeChange s t ∧ ThreadInv t := by
  have hth := hI.thread i
  have hfk := hI.fork i
  simp only [CascadeState.next] at hn
  split at hn
  swap
  · cases hn
  rename_i j hc
  have hchild : (s.calls i).child = some j := by rw [hc]; rfl
  have hij := fork_ne hI hchild
  have hidle := hI.idle i j hchild
  rw [hc] at hth hfk
  have hlive : (s.proc j).live := hfk.1
  simp only [Option.some.injEq] at hn
  obtain ⟨u, hu⟩ : ∃ u, u = (s.setProc j { s.proc j with state := .runnable, parent := some i }).goto
      i .kernel := ⟨_, rfl⟩
  rw [← hu] at hn
  subst hn
  have hkeeps : ∀ k, (s.proc k).Keeps (u.proc k) := by
    intro k
    rw [hu, CascadeState.goto_proc]
    by_cases hk : k = j
    · subst hk
      rw [CascadeState.setProc_self]
      refine ⟨rfl, rfl, rfl, rfl, id, ?_, ?_⟩
      · exact iff_of_false (by simp) hlive.1
      · exact iff_of_false (by simp) hlive.2
    · rw [CascadeState.setProc_ne _ _ _ _ hk]; exact Proc.Keeps.refl _
  have hucalls : u.calls = Function.update s.calls i .kernel := by rw [hu]; rfl
  have hui : ThreadInv u := by
    refine hI.moveAlone (by simp [hc]) rfl hucalls (by rw [hu]; rfl) (fun k _ => hkeeps k) ?_
    exact ThreadOk.keeps (c := .kernel) hth (hkeeps i)
  have huj : u.calls j = .idle := by rw [hucalls, Function.update_of_ne hij.symm, hidle]
  refine ⟨.quiet hR hkeeps (by rw [hu]; rfl) (by rw [hu]; rfl) fun k => ?_,
    hui.spawn huj (fun k hk => ?_) (ThreadOk.keeps (c := .user) hfk (hkeeps j))⟩
  · refine (joining_goto hucalls (by simp [hc]) (by simp)).trans
      (joining_goto (c := .user) (i := j) rfl (by simp [huj]) (by simp))
  · by_cases hki : k = i
    · subst hki
      rw [hucalls, Function.update_self] at hk
      cases hk
    · rw [hucalls, Function.update_of_ne hki] at hk
      exact hki (hI.child k i j hk hchild)

/-! ### Death and termination -/

theorem otherStep (hI : ThreadInv s) (hR : Registry s.workflows s.held)
    (hn : s.next (.other i q) = some t) : CascadeChange s t ∧ ThreadInv t := by
  simp only [CascadeState.next] at hn
  split at hn
  swap
  · cases hn
  rename_i h
  simp only [Option.some.injEq] at hn
  subst hn
  have hkeeps : ∀ k, (s.proc k).Keeps ((s.setProc i q).proc k) := by
    intro k
    by_cases hk : k = i
    · subst hk; rw [CascadeState.setProc_self]; exact h.2
    · rw [CascadeState.setProc_ne _ _ _ _ hk]; exact Proc.Keeps.refl _
  exact ⟨.quiet hR hkeeps rfl rfl fun k => joining_congr rfl, hI.quiet rfl rfl fun k _ => hkeeps k⟩

theorem zombieStep (hT : TableInv s) (hI : ThreadInv s) (hR : Registry s.workflows s.held)
    (hn : s.next (.zombie i) = some t) : CascadeChange s t ∧ ThreadInv t := by
  have hth := hI.thread i
  have hp := hT.proc i
  simp only [CascadeState.next] at hn
  split at hn
  swap
  · cases hn
  rename_i h
  have hc := h.1
  rw [hc] at hth
  obtain ⟨hlive, hreg⟩ := hth
  simp only [Option.some.injEq] at hn
  subst hn
  refine storeStep hI hR (by simp [hc]) (by simp [hc, Call.child]) rfl rfl rfl rfl rfl
    (fun k hk => CascadeState.setProc_ne _ _ _ _ hk) ?_ ?_ trivial
  · simp only [CascadeState.goto_proc, CascadeState.setProc_self]
    refine ⟨rfl, iff_of_false (by simp) hlive.1, fun _ => hlive, rfl,
      ⟨by simp, fun _ => hp.pid hlive.1, hp.id, hp.type, hp.registered, hp.leader, fun _ => hreg⟩,
      .inl rfl, fun g h => ⟨h.1, h.2, h.3, h.4⟩⟩
  · simp

theorem reapStep (hT : TableInv s) (hI : ThreadInv s) (hR : Registry s.workflows s.held)
    (hn : s.next (.reap j) = some t) : CascadeChange s t ∧ ThreadInv t := by
  simp only [CascadeState.next] at hn
  split at hn
  swap
  · cases hn
  rename_i h
  have hdead : ¬ (s.proc j).live := fun hl => hl.2 h.1
  have hidle : s.calls j = .idle := by
    by_contra hne
    exact hdead ((hI.thread j).live hne)
  simp only [Option.some.injEq] at hn
  have hself : t.proc j = freeproc (s.proc j) := by subst hn; exact CascadeState.setProc_self _ _ _
  have hne : ∀ k, k ≠ j → (s.proc k).Keeps (t.proc k) := by
    intro k hk
    subst hn
    rw [CascadeState.setProc_ne _ _ _ _ hk]
    exact Proc.Keeps.refl _
  have hcalls : t.calls = s.calls := by subst hn; rfl
  refine ⟨.ofSlot hR (.free (a := j) hidle ?_ ?_ ?_) hne (fun k _ => joining_congr hcalls)
    (by subst hn; rfl) (by subst hn; exact le_rfl) ?_, hI.quiet hcalls (by subst hn; rfl) ?_⟩
  · rw [hself]; rfl
  · rw [hself]; rfl
  · rw [hself]; rfl
  · rw [hself]
    have hreg := (hT.proc j).zombie h.1
    simp [freeproc, agentInitProc, Membership.held, Membership.init, hreg]
  · intro k hk
    refine hne k ?_
    rintro rfl
    exact hdead hk

theorem cascadeCheck_ok (h : agentCascadeCheck p = agentToolOk) : ¬ p.wf.outside := by
  unfold agentCascadeCheck at h
  split at h
  · exact absurd h (show agentToolErrNotAgent ≠ agentToolOk by decide)
  split at h
  · exact absurd h (show agentToolErrPermission ≠ agentToolOk by decide)
  split at h
  · exact absurd h (show agentToolErrBadParam ≠ agentToolOk by decide)
  · assumption

theorem terminateStep (hI : ThreadInv s) (hR : Registry s.workflows s.held)
    (hn : s.next (.terminate i) = some t) : CascadeChange s t ∧ ThreadInv t := by
  have hth := hI.thread i
  simp only [CascadeState.next] at hn
  split at hn
  swap
  · cases hn
  rename_i hc
  rw [hc] at hth
  obtain ⟨hlive, hset, htied⟩ := hth
  split at hn
  · rename_i hok
    simp only [Option.some.injEq] at hn
    subst hn
    exact gotoStep hI hR (by simp [hc]) (by simp [hc, Call.child]) rfl
      ⟨hlive, hset, htied, cascadeCheck_ok hok⟩
  · simp only [Option.some.injEq] at hn
    subst hn
    exact ⟨.quiet hR (fun _ => Proc.Keeps.refl _) rfl rfl fun _ => .rfl, hI⟩

theorem exitStep (hT : TableInv s) (hI : ThreadInv s) (hR : Registry s.workflows s.held)
    (hn : s.next (.exit i) = some t) : CascadeChange s t ∧ ThreadInv t := by
  have hth := hI.thread i
  simp only [CascadeState.next] at hn
  split at hn
  swap
  · cases hn
  rename_i hc
  obtain ⟨hlive, hset, hidle, hchild⟩ : (s.proc i).live ∧ (s.proc i).Settled ∧
      s.calls i ≠ .idle ∧ (s.calls i).child = none := by
    rcases hc with hc | ⟨hc, -⟩ <;> rw [hc] at hth ⊢
    · exact ⟨hth.1, hth.2.1, by simp, rfl⟩
    · exact ⟨hth.1, hth.2.1, by simp, rfl⟩
  split at hn
  · -- a leader owns its workflow
    rename_i h
    simp only [Option.some.injEq] at hn
    subst hn
    exact gotoStep hI hR hidle hchild rfl
      ⟨hlive, hset, .inr (.inr ((hT.proc i).leader h.1)), cascadeCheck_ok h.2⟩
  · simp only [Option.some.injEq] at hn
    subst hn
    exact gotoStep hI hR hidle hchild rfl hlive

/-- A thread goes back to where its system call or its exit goes on. -/
theorem threadOk_after (exiting : Bool) (hlive : p.live) (hset : p.Settled) (htied : p.Tied) :
    ThreadOk p (if exiting then .exitLeave else .kernel) ∧
      (if exiting then Call.exitLeave else Call.kernel).child = none := by
  cases exiting
  · exact ⟨⟨hlive, hset, htied⟩, rfl⟩
  · exact ⟨hlive, rfl⟩

theorem sweptStep (hI : ThreadInv s) (hR : Registry s.workflows s.held)
    (hn : s.next (.swept i) = some t) : CascadeChange s t ∧ ThreadInv t := by
  have hth := hI.thread i
  simp only [CascadeState.next] at hn
  split at hn
  swap
  · cases hn
  rename_i key m now exiting hc
  rw [hc] at hth
  obtain ⟨hlive, hset, htied, -⟩ := hth
  split at hn
  · simp only [Option.some.injEq] at hn
    subst hn
    obtain ⟨hok, hchild⟩ := threadOk_after exiting hlive hset htied
    exact gotoStep hI hR (by simp [hc]) (by simp [hc, Call.child]) hchild hok
  · cases hn

/-- The section of `agent_workflow_begin_terminate_locked`: the sweep always follows. -/
theorem beginStep (hI : ThreadInv s) (hR : Registry s.workflows s.held)
    (hn : s.next (.begin i) = some t) :
    (CascadeChange s t ∧ ThreadInv t) ∧ ∃ now exiting, t.calls =
      Function.update s.calls i (.sweep (s.proc i).wf.key 0 now exiting) ∧
      (∀ j, t.proc j = s.proc j) ∧ ¬ Active t.workflows (s.proc i).wf.key := by
  have hth := hI.thread i
  simp only [CascadeState.next] at hn
  split at hn
  swap
  · cases hn
  rename_i now exiting hc
  rw [hc] at hth
  obtain ⟨hlive, hset, htied, hout⟩ := hth
  obtain ⟨hret, hclosed, hact, hreg⟩ := beginTerminate_spec (g := s.kernel.agentGlobal) hR
    (s.proc i).wf.key s.kernel.ticks
  rw [if_neg (by rintro ⟨h₁, h₂⟩; exact hret.elim h₁ h₂), Option.some.injEq] at hn
  have hcalls : t.calls = Function.update s.calls i (.sweep (s.proc i).wf.key 0 now exiting) := by
    subst hn; rfl
  have hproc : ∀ j, t.proc j = s.proc j := fun j => by subst hn; rfl
  have hw : t.workflows = (agentWorkflowBeginTerminate s.kernel.agentGlobal (s.proc i).wf.key
      s.kernel.ticks).1.workflows := by subst hn; rfl
  have hkeeps : ∀ j, (s.proc j).Keeps (t.proc j) := fun j => by
    rw [hproc j]; exact Proc.Keeps.refl _
  have hjoin : ∀ j, s.Joining j ↔ t.Joining j := fun j =>
    joining_goto hcalls (by simp [hc]) (by simp)
  refine ⟨⟨⟨?_, fun k hk => ?_, ?_, i, .keeps (hkeeps i) (hjoin i), fun j _ => ⟨hkeeps j, hjoin j⟩⟩,
    hI.moveAlone (by simp [hc]) rfl hcalls (by subst hn; rfl) (fun j _ => hkeeps j) ?_⟩,
    now, exiting, hcalls, hproc, by rw [hw]; exact hclosed⟩
  · subst hn; exact le_rfl
  · rw [hw] at hk
    exact .inl (hact k hk)
  · rw [hw, held_congr fun j => (hkeeps j).wf]; exact hreg
  · rw [hproc i]
    exact ⟨hlive, hset, htied, hout, rfl⟩

theorem cascadeKill_keeps (p : Proc) (now : ℕ) : p.Keeps (cascadeKill p now) := by
  refine ⟨rfl, rfl, rfl, rfl, fun _ => rfl, ?_, ?_⟩ <;> unfold cascadeKill <;> dsimp only <;>
    by_cases h : p.state = .sleeping <;> simp [h]

/-- One step of the sweep: a target in slot `m` is killed, and nothing else changes. -/
theorem sweepStep (hI : ThreadInv s) (hR : Registry s.workflows s.held)
    (hn : s.next (.sweep i) = some t) :
    (CascadeChange s t ∧ ThreadInv t) ∧ ∃ key m now exiting, s.calls i = .sweep key m now exiting ∧
      t.calls = Function.update s.calls i (.sweep key (m + 1) now exiting) ∧
      (∀ j, (s.proc j).Keeps (t.proc j)) ∧ ∃ h : m < nproc,
        cascadeTarget (s.proc ⟨m, h⟩) key (⟨m, h⟩ == i) false →
          (t.proc ⟨m, h⟩).killed = true := by
  have hth := hI.thread i
  simp only [CascadeState.next] at hn
  split at hn
  swap
  · cases hn
  rename_i key m now exiting hc
  rw [hc] at hth
  split at hn
  swap
  · cases hn
  rename_i hm
  split at hn
  swap
  · cases hn
  have hcalls : t.calls = Function.update s.calls i (.sweep key (m + 1) now exiting) := by
    split at hn <;> simp only [Option.some.injEq] at hn <;> subst hn <;> rfl
  have hkeeps : ∀ j, (s.proc j).Keeps (t.proc j) := by
    intro j
    split at hn <;> simp only [Option.some.injEq] at hn <;> subst hn
    · by_cases hj : j = ⟨m, hm⟩
      · subst hj
        rw [CascadeState.setProc_self]
        exact cascadeKill_keeps _ _
      · rw [CascadeState.setProc_ne _ _ _ _ hj]
        exact Proc.Keeps.refl _
    · exact Proc.Keeps.refl _
  have hrest : t.lock = s.lock ∧ t.workflows = s.workflows ∧
      t.kernel.nextpid = s.kernel.nextpid := by
    split at hn <;> simp only [Option.some.injEq] at hn <;> subst hn <;> exact ⟨rfl, rfl, rfl⟩
  refine ⟨⟨.quiet hR hkeeps hrest.2.1 hrest.2.2 fun j => ?_,
    hI.moveAlone (by simp [hc]) rfl hcalls hrest.1 (fun j _ => hkeeps j) ?_⟩,
    key, m, now, exiting, hc, hcalls, hkeeps, hm, fun htarget => ?_⟩
  · exact joining_goto hcalls (by simp [hc]) (by simp)
  · exact ThreadOk.keeps (c := .sweep key (m + 1) now exiting) hth (hkeeps i)
  · rw [if_pos htarget, Option.some.injEq] at hn
    subst hn
    rw [CascadeState.setProc_self]
    rfl

/-- **All a step can do**, and it keeps the invariant of the threads. -/
theorem cascadeNext_change {l : CascadeLabel} (hT : TableInv s) (hI : ThreadInv s)
    (hR : Registry s.workflows s.held) (hn : s.next l = some t) :
    CascadeChange s t ∧ ThreadInv t := by
  cases l with
  | tick =>
    simp only [CascadeState.next, Option.some.injEq] at hn
    subst hn
    exact ⟨.quiet hR (fun _ => Proc.Keeps.refl _) rfl rfl fun _ => .rfl,
      hI.quiet rfl rfl fun _ _ => Proc.Keeps.refl _⟩
  | other i p => exact otherStep hI hR hn
  | trap i =>
    have hth := hI.thread i
    simp only [CascadeState.next] at hn
    split at hn
    · rename_i h
      obtain ⟨hc, hk⟩ := h
      rw [hc] at hth
      obtain ⟨hlive, hset, htied⟩ := hth
      simp only [Option.some.injEq] at hn
      subst hn
      refine gotoStep hI hR (by simp [hc]) (by simp [hc, Call.child]) rfl ⟨hlive, hset, ?_⟩
      exact htied.resolve_right (by simp [hk])
    · cases hn
  | sysret i =>
    have hth := hI.thread i
    simp only [CascadeState.next] at hn
    split at hn
    · rename_i hc
      rw [hc] at hth
      simp only [Option.some.injEq] at hn
      subst hn
      exact gotoStep hI hR (by simp [hc]) (by simp [hc, Call.child]) rfl
        ⟨hth.1, hth.2.1, .inl hth.2.2⟩
    · cases hn
  | mark i type hb quota u now now' =>
    simp only [CascadeState.next] at hn
    split at hn
    · rename_i hc
      split at hn
      · simp only [Option.some.injEq] at hn
        subst hn
        exact ⟨.quiet hR (fun _ => Proc.Keeps.refl _) rfl rfl fun _ => .rfl, hI⟩
      · rename_i k hk
        simp only [Option.some.injEq] at hn
        subst hn
        exact markStep hT hI hR hc hk
    · cases hn
  | leave i => exact leaveStep hT hI hR hn
  | storeId i => exact storeIdStep hT hI hR hn
  | storeOwn i => exact storeOwnStep hT hI hR hn
  | create i => exact createStep hT hI hR hn
  | join i => exact joinStep hT hI hR hn
  | fork i j => exact forkStep hT hI hR hn
  | forkFail i => exact forkFailStep hI hR hn
  | forkStore i => exact forkStoreStep hT hI hR hn
  | forkJoin i => exact forkJoinStep hI hR hn
  | forkRelease i => exact forkReleaseStep hI hR hn
  | forkRun i => exact forkRunStep hI hR hn
  | terminate i => exact terminateStep hI hR hn
  | begin i => exact (beginStep hI hR hn).1
  | sweep i => exact (sweepStep hI hR hn).1
  | swept i => exact sweptStep hI hR hn
  | exit i => exact exitStep hT hI hR hn
  | zombie i => exact zombieStep hT hI hR hn
  | reap j => exact reapStep hT hI hR hn

end

end AgentOS
