import AgentOS.Model.Tool

/-!
# The score of a runnable process

`agent_schedule_score` and the loop of `scheduler` that picks the process with the greatest score.

`now` and `runnable_since` are readings of `ticks`, 32 bits wide, so their difference over the
divisor is an `int` as it stands. The quotient of the virtual runtime is cast to `int` as the source
does. `agentScheduleScore` is the exact sum of the terms, `agentScheduleInt` that sum as an `int`.
With the fields that the kernel stores both agree until the virtual runtime comes to `2 ^ 33`
(`scoreFits_of_fields`), where the `int` overflows.
-/

namespace AgentOS

def agentAgingDivisor : ℕ := 5
def agentAgingMax : ℤ := 20
def agentVruntimeDivisor : ℕ := 4
def agentBudgetPenaltyScore : ℤ := 5

/-- `agent_event_weight`. -/
def agentEventWeight (pendingEvents : BitVec 32) : ℤ :=
  if pendingEvents &&& agentEventMessage ≠ 0 then 30
  else if pendingEvents &&& agentEventParentGone ≠ 0 then 25
  else if pendingEvents &&& agentEventFilemod ≠ 0 then 20
  else if pendingEvents &&& agentEventHeartbeat ≠ 0 then 10
  else 0

/-- `runnable_since`, once it is set. -/
def scoreSince (s : Sched) (now : ℕ) : ℕ :=
  if s.runnableSince = 0 then (if now = 0 then 1 else now) else s.runnableSince

/-- `aging`. -/
def scoreAging (s : Sched) (now : ℕ) : ℤ :=
  let aging : ℤ :=
    if scoreSince s now < now then ((now - scoreSince s now) / agentAgingDivisor : ℕ) else 0
  if agentAgingMax < aging then agentAgingMax else aging

/-- `priority`. -/
def scorePriority (p : Proc) : ℤ :=
  if p.ident.agentType = agentTypeNormal then agentDefaultPriority
  else if p.ident.agentPriority < p.sched.agentSchedPriority then p.sched.agentSchedPriority
  else p.ident.agentPriority

/-- The penalty for the time it has run. -/
def vruntimePenalty (s : Sched) : ℤ :=
  if 0 < s.agentSchedVruntime then toInt32 (s.agentSchedVruntime / agentVruntimeDivisor : ℕ) else 0

/-- The bonus of a wait that is about to time out. -/
def deadlineBonus (l : Loop) (now : ℕ) : ℤ :=
  if 0 < l.waitDeadline ∧ l.waitDeadline ≤ now + 5 then 15 else 0

/-- `agent_schedule_score` in exact arithmetic, with what it stores in the process. -/
def agentScheduleScore (p : Proc) (now : ℕ) : Proc × ℤ :=
  if p.state ≠ .runnable then (p, -1)
  else
    let score := scorePriority p * 10 + scoreAging p.sched now
    let q := { p with sched.runnableSince := scoreSince p.sched now }
    if p.ident.agentType = agentTypeNormal then (q, score)
    else
      let score := score + agentEventWeight p.loop.pendingEvents
      let score := score + p.sched.agentSchedBoost * 10
      let score := score - vruntimePenalty p.sched
      let exhausted := p.sched.agentSchedBudget ≤ 0
      let score := if exhausted then score - agentBudgetPenaltyScore else score
      let penalty := p.sched.agentSchedBudgetPenalty + if exhausted then 1 else 0
      ({ q with sched.agentSchedBudgetPenalty := penalty }, score + deadlineBonus p.loop now)

/-- What `agent_schedule_score` returns for any record, an `int`. -/
def agentScheduleInt (p : Proc) (now : ℕ) : Proc × ℤ :=
  ((agentScheduleScore p now).1, toInt32 (agentScheduleScore p now).2)

/-! ### The loop of `scheduler` -/

/-- The best process so far and its score. -/
abbrev Best := Option (Slot × ℤ)

/-- A turn of the loop at slot `i`. -/
def schedulerVisit (now : ℕ) (s : Kernel × Best) (i : Slot) : Kernel × Best :=
  if (s.1.procs i).state = .runnable then
    let r := agentScheduleScore (s.1.procs i) now
    (s.1.setProc i r.1,
      match s.2 with
      | none => some (i, r.2)
      | some (best, bestScore) => if bestScore < r.2 then some (i, r.2) else some (best, bestScore))
  else s

/-- The loop: the kernel it leaves and the process that runs next. -/
def schedulerPick (k : Kernel) (now : ℕ) : Kernel × Option Slot :=
  let r := (List.finRange nproc).foldl (schedulerVisit now) (k, none)
  (r.1, r.2.map Prod.fst)

/-! ### The locks of the loop -/

/-- The variables of the loop, and which `p->lock`s this CPU holds. -/
structure SchedulerScan where
  kernel : Kernel
  held : Slot → Bool
  best : Option Slot
  bestScore : ℤ

namespace SchedulerScan

/-- `acquire(&p->lock)`, which panics for the holder. The other CPUs hold none, so nobody waits. -/
def acquire (s : SchedulerScan) (p : Slot) : Option SchedulerScan :=
  if s.held p = true then none else some { s with held := Function.update s.held p true }

/-- `release(&p->lock)`, which panics for all but the holder. -/
def release (s : SchedulerScan) (p : Slot) : Option SchedulerScan :=
  if s.held p = true then some { s with held := Function.update s.held p false } else none

/-- A turn of the loop at slot `p`; `score` stands for `agent_schedule_score`. -/
def turn (score : Proc → ℕ → Proc × ℤ) (now : ℕ) (s : SchedulerScan) (p : Slot) :
    Option SchedulerScan := do
  let s ← s.acquire p
  if (s.kernel.procs p).state = .runnable then
    let r := score (s.kernel.procs p) now
    let s := { s with kernel := s.kernel.setProc p r.1 }
    if s.best = none ∨ s.bestScore < r.2 then
      -- `continue`: the lock of the new best stays held
      match s.best with
      | none => return { s with bestScore := r.2, best := some p }
      | some best => return { ← s.release best with bestScore := r.2, best := some p }
    else s.release p
  else s.release p

/-- The loop over any slots. -/
def loop (score : Proc → ℕ → Proc × ℤ) (now : ℕ) (s : SchedulerScan) (todo : List Slot) :
    Option SchedulerScan :=
  todo.foldlM (turn score now) s

/-- Before the loop this CPU holds no `p->lock`. -/
def start (k : Kernel) : SchedulerScan := ⟨k, fun _ => false, none, -1⟩

end SchedulerScan

/-- The loop of `scheduler` with its locks; no result is a panic. -/
def schedulerScan (k : Kernel) (now : ℕ) : Option SchedulerScan :=
  (SchedulerScan.start k).loop agentScheduleInt now (List.finRange nproc)

end AgentOS
