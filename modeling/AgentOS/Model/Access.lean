import AgentOS.Model.Authority
import AgentOS.Model.Lease
import AgentOS.Model.QueryCache
import AgentOS.Model.Router
import AgentOS.Model.Wait

/-!
# What capabilities guard, by either door

Leases, listings of processes, scheduling parameters and file watches, as the Tool Router and the
system calls give them: the machine of `AgentOS.Model.Authority` with `agent_tool_call`,
`agent_proc_lease_begin` and its two companions, `agent_proc_query_agent`,
`agent_proc_priority_set`, `agent_proc_sched_set`, `agent_proc_watch` and
`agent_proc_watch_file`. The section of a call that checks the capabilities and the section that
stores are one step: only the process itself changes its mask, and it is inside the call.

No other code of the kernel writes these fields but to clear a watch (`agent_proc_unwatch`,
`agent_proc_wait`, `agent_cascade_terminate`); it is the step `other`.
-/

namespace AgentOS

def agentMaxPriority : ℤ := 10

/-! ### Parameters -/

/-- The loop of `parse_uint_param`, over `'0'` to `'9'`. -/
def parseDigits : List UInt8 → ℕ → Option ℕ
  | [], ret => some ret
  | b :: s, ret =>
    if b < 48 ∨ 57 < b then none else parseDigits s ((ret * 10 + (b.toNat - 48)) % 2 ^ 64)

/-- `parse_uint_param`. -/
def parseUintParam (params key : List UInt8) : Option ℕ :=
  match paramValue params key 32 with
  | none | some [] => none
  | some s => parseDigits s 0

/-! ### Listings -/

/-- An `int` as `buf_putu` takes it. -/
def asUint64 (n : ℤ) : ℕ := (n % 2 ^ 64).toNat

/-- `buf_puts` of a name and `buf_putu` of its value. -/
def putField (buf : List UInt8) (key : String) (value : ℕ) : List UInt8 :=
  resultPutu (resultPuts buf (lit key)) value

/-- The loop over `proc[]` that puts an entry for every process that is `shown`, and counts. -/
def listProcs (k : Kernel) (start : List UInt8) (shown : Proc → Bool)
    (entry : List UInt8 → Slot → List UInt8) : List UInt8 × ℕ :=
  (List.finRange nproc).foldl (fun s i =>
    if shown (k.procs i) then
      (entry (if 0 < s.2 then resultPuts s.1 (lit ",") else s.1) i, s.2 + 1)
    else s) (start, 0)

/-- The end of a listing. -/
def listEnd (s : List UInt8 × ℕ) : List UInt8 :=
  resultPuts (putField s.1 "],count=" s.2) (lit "\x7d")

/-- Has the mask of `p` bit `capability`? The shift uses the low six bits. -/
def hasCapBit (p : Proc) (capability : ℕ) : Bool :=
  p.ident.agentCapabilities &&& (1#64 <<< (capability % 64)) != 0

/-- From `role` on, the two listings of Agents put the same fields. -/
def agentEntry (buf : List UInt8) (p : Proc) : List UInt8 :=
  let buf := putField buf ",role=" (asUint64 p.ident.agentRole)
  let buf := putField buf ",caps=" p.ident.agentCapabilities.toNat
  let buf := putField buf ",group=" (asUint64 p.ident.agentGroup)
  resultPuts (putField buf ",state=" (asUint64 p.loop.loopState)) (lit "\x7d")

/-- The text of `agent_proc_query_agent`; a negative `role` or `capability` and a `group` that is
not positive ask for all. -/
def agentProcQueryAgent (k : Kernel) (role capability group : ℤ) : List UInt8 :=
  listEnd (listProcs k (lit "\x7bagents=[")
    (fun p => p.state != .unused && p.ident.agentType != agentTypeNormal &&
      (role < 0 || p.ident.agentRole == role) &&
      (capability < 0 || hasCapBit p capability.toNat) &&
      (group ≤ 0 || p.ident.agentGroup == group))
    (fun buf i =>
      let buf := putField buf "\x7bpid=" (k.procs i).pid
      agentEntry (putField buf ",type=" (asUint64 (k.procs i).ident.agentType)) (k.procs i)))

/-- The text of `tool_query_agent`. -/
def toolQueryAgent (k : Kernel) (params : List UInt8) : List UInt8 :=
  let role := parseUintParam params (lit "role")
  let capability := parseUintParam params (lit "capability")
  let group := parseUintParam params (lit "group")
  listEnd (listProcs k (lit "\x7bstatus=ok,agents=[")
    (fun p => p.state != .unused && p.ident.agentType != agentTypeNormal &&
      (role.all fun r => p.ident.agentRole == toInt32 r) &&
      (capability.all fun c => hasCapBit p c) &&
      (group.all fun g => p.ident.agentGroup == toInt32 g))
    (fun buf i => agentEntry (putField buf "\x7bpid=" (k.procs i).pid) (k.procs i)))

/-- The text of `tool_query_process`; `names` are the fields `name` of `proc[]`. -/
def toolQueryProcess (k : Kernel) (names : Slot → List UInt8) (params : List UInt8) : List UInt8 :=
  let onlyAgent := (paramValue params (lit "type") 24).any fun v => streq v (lit "agent")
  listEnd (listProcs k (lit "\x7bstatus=ok,processes=[")
    (fun p => p.state != .unused && !(onlyAgent && p.ident.agentType == agentTypeNormal))
    (fun buf i =>
      let buf := putField buf "\x7bpid=" (k.procs i).pid
      let buf := resultPuts (resultPuts buf (lit ",name=")) (names i)
      let buf := putField buf ",type=" (asUint64 (k.procs i).ident.agentType)
      resultPuts (putField buf ",caps=" (k.procs i).ident.agentCapabilities.toNat) (lit "\x7d")))

/-! ### Scheduling parameters and file watches -/

/-- `agent_proc_priority_set`. -/
def agentProcPrioritySet (p : Proc) (priority : ℤ) : Proc × ℤ :=
  if p.ident.agentType = agentTypeNormal then (p, agentToolErrNotAgent)
  else if priority < 0 ∨ agentMaxPriority < priority then (p, -1)
  else
    ({ p with
        ident.agentPriority := priority
        sched.agentSchedPriority :=
          if agentSchedPriorityMin ≤ priority ∧ priority ≤ agentSchedPriorityMax then priority
          else p.sched.agentSchedPriority }, 0)

/-- `agent_proc_sched_set`. -/
def agentProcSchedSet (p : Proc) (priority quota : ℤ) (now : ℕ) : Proc × ℤ :=
  if p.ident.agentType = agentTypeNormal then (p, agentToolErrNotAgent)
  else if priority < agentSchedPriorityMin ∨ agentSchedPriorityMax < priority then (p, -1)
  else if quota < agentSchedQuotaMin ∨ agentSchedQuotaMax < quota then (p, -1)
  else
    let budget := if quota < p.sched.agentSchedBudget then quota else p.sched.agentSchedBudget
    ({ p with
        sched.agentSchedPriority := priority
        sched.agentSchedQuota := quota
        sched.agentSchedBudget := if budget ≤ 0 then quota else budget
        sched.budgetReplenishDeadline := now + agentSchedBudgetReplenishInterval }, 0)

/-- What the scheduler's score takes from the process: its two priorities and its quota. -/
def Proc.schedParams (p : Proc) : ℤ × ℤ × ℤ :=
  (p.ident.agentPriority, p.sched.agentSchedPriority, p.sched.agentSchedQuota)

/-- The file watch of a process. `agent_proc_watch` sets the bit and names no file: `(0, 0)`. -/
def Proc.fileWatch (p : Proc) : Option Ino :=
  if p.loop.watchMask &&& agentWatchFilemod = 0 then none
  else some (p.loop.agentWatchDev, p.loop.agentWatchInum)

/-! ### The machine -/

/-- The two ways to a handler. -/
inductive Door
  | router
  | direct
  deriving DecidableEq, Repr

/-- A listing that a process received. -/
structure Listing where
  door : Door
  text : List UInt8
  deriving DecidableEq, Repr

/-- What a tool call finds: the dynamic tools, the process names, the regular file of its path,
whether `kalloc` succeeds, and the clock. -/
structure ToolEnv where
  runtime : Runtime
  names : Slot → List UInt8
  file : Option Ino
  kalloc : Bool
  now : ℕ

/-- The kernel, and for the process in each slot every capability that its mask has contained
and the listings it received. -/
structure AccessState where
  kernel : Kernel
  had : Slot → BitVec 64
  told : Slot → List Listing

inductive AccessLabel
  | call (l : CallLabel)
  | tool (i : Slot) (name params : List UInt8) (env : ToolEnv)
  | leaseBegin (i : Slot) (file : Option Ino) (now : ℕ)
  | leaseCommit (i : Slot) (leaseId expectedVersion now : ℕ)
  | leaseAbort (i : Slot) (leaseId : ℕ)
  | queryAgent (i : Slot) (role capability group : ℤ) (len : ℕ)
  | prioritySet (i : Slot) (priority : ℤ)
  | schedSet (i : Slot) (priority quota : ℤ) (now : ℕ)
  | watch (i : Slot) (mask : BitVec 32)
  | watchFile (i : Slot) (file : Option Ino) (path : List UInt8)
  | unwatch (i : Slot) (mask : BitVec 32)
  | leaseReap (now : ℕ)

/-- The process that a fork makes. -/
def CallLabel.born : CallLabel → Option Slot
  | .fork _ j true => some j
  | _ => none

/-- The record `q` with the scheduling parameters of `p`, and with its watch unless `q` has
none. -/
def Proc.keeping (q p : Proc) : Proc :=
  { q with
    sched.agentSchedPriority := p.sched.agentSchedPriority
    sched.agentSchedQuota := p.sched.agentSchedQuota
    loop :=
      if q.loop.watchMask &&& agentWatchFilemod = 0 then q.loop
      else { q.loop with
        watchMask := p.loop.watchMask
        agentWatchDev := p.loop.agentWatchDev
        agentWatchInum := p.loop.agentWatchInum
        agentWatchPath := p.loop.agentWatchPath } }

namespace AccessState

variable (s : AccessState) (i : Slot)

def proc : Proc := s.kernel.procs i

def leases : Fin agentLeaseMax → AgentEditLease := s.kernel.agentGlobal.leases

def setProc (p : Proc) : AccessState := { s with kernel := s.kernel.setProc i p }

def setGlobal (g : AgentGlobal) : AccessState :=
  { s with kernel := { s.kernel with agentGlobal := g } }

/-- Process `i` received a listing. -/
def tell (door : Door) (text : List UInt8) : AccessState :=
  { s with told := Function.update s.told i (s.told i ++ [⟨door, text⟩]) }

/-- `agent_proc_lease_begin`; `file` is the regular file `namei` finds. -/
def leaseTake (file : Option Ino) (now : ℕ) : AccessState :=
  match file with
  | none => s
  | some ino =>
    if leaseAllowed (s.proc i) then
      s.setGlobal (agentProcLeaseBegin s.kernel.agentGlobal (s.proc i) ino now).1
    else s

/-- `agent_proc_lease_commit`. -/
def leaseDrop (leaseId expectedVersion now : ℕ) : AccessState :=
  s.setGlobal
    (agentProcLeaseCommit s.kernel.agentGlobal (s.proc i) leaseId expectedVersion now).1

/-- `agent_proc_lease_abort`. -/
def leaseQuit (leaseId : ℕ) : AccessState :=
  s.setGlobal (agentProcLeaseAbort s.kernel.agentGlobal (s.proc i) leaseId).1

/-- What the handler of a built-in tool does to leases and listings. -/
def useTool (params : List UInt8) (env : ToolEnv) : BuiltinTool → AccessState
  | .queryProcess =>
    if env.kalloc then
      s.tell i .router (toolRespSet agentToolOk (toolQueryProcess s.kernel env.names params)).result
    else s
  | .queryAgent =>
    if env.kalloc then
      s.tell i .router (toolRespSet agentToolOk (toolQueryAgent s.kernel params)).result
    else s
  | .leaseBegin =>
    match paramValue params (lit "path") 64 with
    | none => s
    | some _ => s.leaseTake i env.file env.now
  | .leaseCommit =>
    match parseUintParam params (lit "lease_id"), parseUintParam params (lit "expected_version") with
    | some leaseId, some expectedVersion => s.leaseDrop i leaseId expectedVersion env.now
    | _, _ => s
  | .leaseAbort =>
    match parseUintParam params (lit "lease_id") with
    | some leaseId => s.leaseQuit i leaseId
    | none => s
  | _ => s

/-- After a call: the capabilities every process has had by now, and a new process in the slot
`born`. -/
def follow (born : Option Slot) (k : Kernel) : AccessState where
  kernel := k
  had j :=
    if born = some j then (k.procs j).ident.agentCapabilities
    else s.had j ||| (k.procs j).ident.agentCapabilities
  told j := if born = some j then [] else s.told j

/-- The kernel after a call of `AgentOS.Model.Authority`. `exit` frees the leases, and the rest of
the kernel keeps the parameters and gives no watch. -/
def callKernel : CallLabel → Option Kernel
  | .exit i =>
    (s.kernel.callNext (.exit i)).map fun k =>
      { k with agentGlobal := agentLeaseReapPid k.agentGlobal (s.proc i).pid }
  | .other i q => s.kernel.callNext (.other i (q.keeping (s.proc i)))
  | l => s.kernel.callNext l

/-- A call of a process that runs. -/
def guarded (t : AccessState) : Option AccessState := if (s.proc i).live then some t else none

/-- One step. -/
def next : AccessLabel → Option AccessState
  | .call l => (s.callKernel l).map (s.follow l.born)
  | .tool i name params env =>
    s.guarded i (match agentToolRoute env.runtime (s.proc i) name with
      | .builtin t => s.useTool i params env t
      | _ => s)
  | .leaseBegin i file now => s.guarded i (s.leaseTake i file now)
  | .leaseCommit i leaseId expectedVersion now =>
    s.guarded i (s.leaseDrop i leaseId expectedVersion now)
  | .leaseAbort i leaseId => s.guarded i (s.leaseQuit i leaseId)
  | .queryAgent i role capability group len =>
    s.guarded i (s.tell i .direct ((agentProcQueryAgent s.kernel role capability group).take len))
  | .prioritySet i priority =>
    s.guarded i (s.setProc i (agentProcPrioritySet (s.proc i) priority).1)
  | .schedSet i priority quota now =>
    s.guarded i (s.setProc i (agentProcSchedSet (s.proc i) priority quota now).1)
  | .watch i mask => s.guarded i (s.setProc i (agentProcWatch (s.proc i) mask).1)
  | .watchFile i file path =>
    s.guarded i (match file with
      | some ino => s.setProc i (agentProcWatchFile (s.proc i) ino.1 ino.2 path).1
      | none => s)
  | .unwatch i mask => s.guarded i (s.setProc i (agentProcUnwatch (s.proc i) mask).1)
  | .leaseReap now => some (s.setGlobal (agentLeaseReapExpired s.kernel.agentGlobal now))

/-- The process in slot `i` owns a lease. -/
def OwnsLease : Prop :=
  (s.proc i).live ∧ ∃ slot, (s.leases slot).used = true ∧ (s.leases slot).owner = (s.proc i).owner

instance : Decidable (s.OwnsLease i) := inferInstanceAs (Decidable (_ ∧ _))

/-- At boot: no leases, and no capability was ever given. -/
def init : Prop :=
  callMachine.init s.kernel ∧ s.kernel.agentGlobal = AgentGlobal.init ∧ (∀ j, s.had j = 0) ∧
    ∀ j, s.told j = []

end AccessState

/-- **The machine of guarded effects.** -/
def accessMachine : Machine AccessState AccessLabel := ⟨AccessState.init, AccessState.next⟩

end AgentOS
