import Mathlib.Algebra.Group.Int.Defs
import Mathlib.Algebra.GroupWithZero.Nat
import Mathlib.Data.Int.ConditionallyCompleteOrder
import Mathlib.Data.List.TakeWhile

/-!
# Constants and C strings

The constants of `kernel/agent.h`, `kernel/param.h`, `kernel/riscv.h` and
`kernel/fs.h` that the model uses, and the string helpers of `kernel/string.c` on
byte lists. A `char *` is the list of bytes it points at; the string it denotes ends
at the first NUL.
-/

namespace AgentOS

/-- `NPROC`. -/
def nproc : ℕ := 64

instance : NeZero nproc := ⟨by decide⟩

/-- A slot of the process table `proc[NPROC]`. -/
abbrev Slot := Fin nproc

/-- `PGSIZE`. -/
def pgsize : ℕ := 4096

/-- `PGROUNDUP`. -/
def pgroundup (sz : ℕ) : ℕ := (sz + pgsize - 1) / pgsize * pgsize

theorem le_pgroundup (n : ℕ) : n ≤ pgroundup n := by
  unfold pgroundup pgsize
  omega

/-! ### Agent types, roles and capabilities -/

def agentTypeNormal : ℤ := 0
def agentTypePrimary : ℤ := 1
def agentTypeWorker : ℤ := 2

def agentRoleUnset : ℤ := -1
def agentRolePlanner : ℤ := 0
def agentRoleToolService : ℤ := 5

def agentCapQueryProcess : BitVec 64 := 1#64 <<< 0
def agentCapQueryFile : BitVec 64 := 1#64 <<< 1
def agentCapReadFile : BitVec 64 := 1#64 <<< 2
def agentCapPatchFile : BitVec 64 := 1#64 <<< 3
def agentCapSendMessage : BitVec 64 := 1#64 <<< 4
def agentCapWatchFile : BitVec 64 := 1#64 <<< 5
def agentCapRegisterTool : BitVec 64 := 1#64 <<< 6
def agentCapSchedConfig : BitVec 64 := 1#64 <<< 7
def agentCapLeaseAcquire : BitVec 64 := 1#64 <<< 8
def agentCapWorkflowCtrl : BitVec 64 := 1#64 <<< 9
def agentCapAuditRead : BitVec 64 := 1#64 <<< 10
def agentCapAll : BitVec 64 := (1#64 <<< 11) - 1#64

def agentDefaultPriority : ℤ := 5
def agentSchedPriorityMin : ℤ := 1
def agentSchedPriorityMax : ℤ := 8
def agentSchedQuotaMin : ℤ := 1
def agentSchedQuotaMax : ℤ := 8
def agentSchedBudgetReplenishInterval : ℕ := 10

def agentWorkflowUnused : ℤ := 0
def agentWorkflowActive : ℤ := 1
def agentWorkflowTerminating : ℤ := 2
def agentWorkflowDead : ℤ := 3

/-! ### Loop states and events -/

def agentLoopIdle : ℤ := 0
def agentLoopReady : ℤ := 1
def agentLoopRunning : ℤ := 2
def agentLoopWaiting : ℤ := 3
def agentLoopRolledBack : ℤ := 4
def agentLoopDone : ℤ := 5

def agentEventNone : BitVec 32 := 0#32
def agentEventHeartbeat : BitVec 32 := 1#32
def agentEventMessage : BitVec 32 := 2#32
def agentEventFilemod : BitVec 32 := 4#32
def agentEventParentGone : BitVec 32 := 8#32

/-! ### Capacities -/

abbrev agentMailboxCap : ℕ := 8

instance : NeZero agentMailboxCap := ⟨by decide⟩

def agentMailboxSystemSlots : ℕ := 2
def agentMessageMax : ℕ := 128
def agentMessageTypeNormal : ℤ := 0
def agentMessageTypeSystem : ℤ := 1

abbrev agentLeaseMax : ℕ := 8
def agentLeaseExpiryTicks : ℕ := 200

abbrev agentContextMaxNodes : ℕ := 16

instance : NeZero agentContextMaxNodes := ⟨by decide⟩

abbrev agentContextDigestMax : ℕ := 16
def agentContextRegionSize : ℕ := 8192
def agentContextReqMax : ℕ := 96
def agentContextResMax : ℕ := 160
def agentGuardPageSize : ℕ := 4096

/-- `sizeof(struct agent_context_header)`: four `uint32`, ten `uint64`,
`last_tool[32]` and `last_result[512]`. -/
def sizeofContextHeader : ℕ := 4 * 4 + 10 * 8 + 32 + 512

abbrev agentDynamicToolMax : ℕ := 8
abbrev agentDynamicRequestMax : ℕ := 8
def agentToolNameMax : ℕ := 32
def agentToolParamMax : ℕ := 128
def agentToolResultMax : ℕ := 512
def agentToolFlagPublic : BitVec 32 := 1#32
def agentToolBatchMax : ℕ := 8

abbrev agentWorkflowMax : ℕ := 16
def agentWorkflowMemberMax : ℤ := 64

abbrev agentHeartbeatWheelBuckets : ℕ := 64

/-! ### Return codes -/

def agentToolOk : ℤ := 0
def agentToolErrToolNotFound : ℤ := -1
def agentToolErrBadParam : ℤ := -2
def agentToolErrNotAgent : ℤ := -3
def agentToolErrNoSpace : ℤ := -4
def agentToolErrBusy : ℤ := -5
def agentToolErrPermission : ℤ := -6
def agentToolErrServiceGone : ℤ := -7

def agentWaitMessage : ℤ := 1
def agentWaitFilemod : ℤ := 2
def agentWaitHeartbeat : ℤ := 3
def agentWaitTimeout : ℤ := 4
def agentWaitCancelled : ℤ := 5
def agentWaitNoSource : ℤ := 6
def agentWaitParentGone : ℤ := 7

/-! ### Strings -/

/-- The string a `char *` denotes: its bytes up to the first NUL. -/
def cstr (s : List UInt8) : List UInt8 := s.takeWhile (· ≠ 0)

/-- A string literal. -/
def lit (s : String) : List UInt8 := s.toList.map fun c => UInt8.ofNat c.toNat

/-- The bytes of a string one by one, not the 256 values of a byte. -/
instance decidableBytes (s : List UInt8) (p : UInt8 → Prop) [DecidablePred p] :
    Decidable (∀ b ∈ s, p b) :=
  List.decidableBAll p s

/-- `streq`: `strncmp` over the longer string and its NUL. -/
def streq (a b : List UInt8) : Bool := cstr a == cstr b

/-- `strlen`. -/
def strlen (s : List UInt8) : ℕ := (cstr s).length

/-- What `safestrcpy(dst, s, n)` leaves in `dst`, as a string. -/
def safestrcpy (s : List UInt8) (n : ℕ) : List UInt8 := (cstr s).take (n - 1)

theorem safestrcpy_length (s : List UInt8) (n : ℕ) :
    (safestrcpy s n).length = min (strlen s) (n - 1) := by
  simp [safestrcpy, strlen, Nat.min_comm]

theorem cstr_take (s : List UInt8) (n : ℕ) : cstr ((cstr s).take n) = (cstr s).take n := by
  unfold cstr
  rw [List.takeWhile_eq_self_iff]
  intro b hb
  have h := List.mem_takeWhile_imp (List.mem_of_mem_take hb)
  simpa using h

theorem cstr_idem (s : List UInt8) : cstr (cstr s) = cstr s := by
  have h := cstr_take s (cstr s).length
  rwa [List.take_length] at h

theorem cstr_zero (s : List UInt8) : (0 : UInt8) ∉ cstr s := by
  intro h
  have hne := List.mem_takeWhile_imp h
  simp at hne

theorem cstr_of_notMem {s : List UInt8} (h : (0 : UInt8) ∉ s) : cstr s = s := by
  unfold cstr
  rw [List.takeWhile_eq_self_iff]
  intro b hb
  have hne : b ≠ 0 := by
    rintro rfl
    exact h hb
  simpa using hne

theorem streq_iff {a b : List UInt8} : streq a b = true ↔ cstr a = cstr b := beq_iff_eq

theorem streq_comm (a b : List UInt8) : streq a b = streq b a := Bool.beq_comm

theorem streq_congr {a b : List UInt8} (h : streq a b = true) (c : List UInt8) :
    streq a c = streq b c := by
  unfold streq
  rw [streq_iff.1 h]

theorem safestrcpy_of_lt {s : List UInt8} {n : ℕ} (h : strlen s < n) : safestrcpy s n = cstr s :=
  List.take_of_length_le (by unfold strlen at h; omega)

/-- Copying a copy into a buffer of the same size changes nothing. -/
theorem safestrcpy_idem (s : List UInt8) (n : ℕ) :
    safestrcpy (safestrcpy s n) n = safestrcpy s n := by
  unfold safestrcpy
  rw [cstr_take, List.take_take, min_self]

/-- The bytes of a field: a string and NULs up to its size. -/
def padded (s : List UInt8) (n : ℕ) : List UInt8 := (s ++ List.replicate n 0).take n

theorem padded_length (s : List UInt8) (n : ℕ) : (padded s n).length = n := by
  simp only [padded, List.length_take, List.length_append, List.length_replicate]
  omega

end AgentOS
