import AgentOS.Lib.Numeral
import AgentOS.Model.NumberTools

/-!
# Numbers that callers write

`parse_uint_param` reads at most 31 digits, modulo 2^64, and `tool_send_message_tool` casts what it
read to `int`. What a caller wrote is the complete text of the value (`paramText`).

* `parseUintParam_spec`: the number read, in terms of that text.
* **`numbers_exact`**: the number, the process and the lease are the ones whose numeral the caller
  wrote exactly when that numeral fits (`Fits`).
-/

namespace AgentOS

open Numeral

/-- The complete text of the value of `key`: `param_value` into a buffer that takes all the
parameters. -/
def paramText (params key : List UInt8) : Option (List UInt8) :=
  paramValue params key ((cstr params).length + 2)

/-- The caller wrote a numeral for `v`. -/
def Wrote (params key : List UInt8) (v : ℕ) : Prop :=
  ∃ text, paramText params key = some text ∧ Denotes text v

/-- The caller wrote digits, for a number below `w`, and at most 31 of them unless all are zeros. -/
def Fits (params key : List UInt8) (w : ℕ) : Prop :=
  ∃ text, paramText params key = some text ∧ (∀ b ∈ text, IsDigit b) ∧ value text < w ∧
    (text.length ≤ 31 ∨ value text = 0)

section

variable {params key text s : List UInt8} {n v w : ℕ}

/-! ### The text of a value -/

theorem paramValueLoop_eq (key : List UInt8) (n : ℕ) {fuel m : ℕ} {p : List UInt8}
    (h : p.length ≤ m) :
    paramValueLoop key n fuel p = (paramValueLoop key (m + 2) fuel p).map (List.take (n - 1)) := by
  induction fuel generalizing p with
  | zero => rfl
  | succ fuel ih =>
    unfold paramValueLoop
    split
    · rfl
    split
    · -- the key is here: the value is no longer than what is left
      have hle : ((p.drop (key.length + 1)).takeWhile (· != charSemicolon)).length ≤ m + 2 - 1 := by
        have htake := (List.takeWhile_prefix (l := p.drop (key.length + 1))
          (· != charSemicolon)).length_le
        rw [List.length_drop] at htake
        omega
      rw [Option.map_some, List.take_of_length_le hle]
    · refine ih (le_trans ?_ h)
      have hdrop := (List.dropWhile_suffix (l := p) (· != charSemicolon)).length_le
      split
      · rw [List.length_tail]
        omega
      · exact hdrop

/-- A smaller buffer cuts the text. -/
theorem paramValue_eq : paramValue params key n = (paramText params key).map (List.take (n - 1)) :=
  paramValueLoop_eq key n (le_refl _)

/-! ### The loop of `parse_uint_param` -/

theorem parseDigits_eq_some {r : ℕ} (h : parseDigits s r = some v) :
    (∀ b ∈ s, IsDigit b) ∧ (r < 2 ^ 64 → v = valueFrom r s % 2 ^ 64) := by
  induction s generalizing r with
  | nil =>
    obtain rfl := Option.some.inj h
    exact ⟨fun b hb => absurd hb List.not_mem_nil, fun hr => (Nat.mod_eq_of_lt hr).symm⟩
  | cons b s ih =>
    unfold parseDigits at h
    split at h <;> [cases h; skip]
    rename_i hb
    rw [not_or, UInt8.not_lt, UInt8.not_lt] at hb
    obtain ⟨hdigits, hv⟩ := ih h
    refine ⟨?_, fun _ => ?_⟩
    · intro c hc
      rcases List.mem_cons.mp hc with rfl | hc
      · exact hb
      · exact hdigits c hc
    · have hmod : ∀ x, valueFrom (x % 2 ^ 64) s % 2 ^ 64 = valueFrom x s % 2 ^ 64 := by
        intro x
        rw [valueFrom_eq, valueFrom_eq (v := x), Nat.add_mod, Nat.mod_mul_mod, ← Nat.add_mod]
      rw [hv (Nat.mod_lt _ (by decide)), hmod]
      rfl

/-- **What `parse_uint_param` reads**: the first 31 digits of the text, modulo 2^64. -/
theorem parseUintParam_spec (h : parseUintParam params key = some v) :
    ∃ text, paramText params key = some text ∧ text ≠ [] ∧ (∀ b ∈ text.take 31, IsDigit b) ∧
      v = value (text.take 31) % 2 ^ 64 := by
  unfold parseUintParam at h
  rw [paramValue_eq] at h
  cases htext : paramText params key with
  | none =>
    rw [htext] at h
    cases h
  | some text =>
    rw [htext, Option.map_some, show 32 - 1 = 31 from rfl] at h
    cases htake : text.take 31 with
    | nil =>
      rw [htake] at h
      cases h
    | cons b s =>
      rw [htake] at h
      obtain ⟨hdigits, hv⟩ := parseDigits_eq_some h
      rw [← htake] at hdigits hv
      refine ⟨text, rfl, ?_, hdigits, hv (by decide)⟩
      rintro rfl
      cases htake

/-! ### Which numeral it was -/

/-- A number below `w` that is made of the first 31 digits, and is no greater than they say: the
text is a numeral for it exactly when it fits. -/
theorem denotes_iff {f : ℕ → ℕ} (hle : ∀ x, f x ≤ x) (hlt : ∀ x, f x < w)
    (heq : ∀ x, x < w → f x = x) (hne : text ≠ []) :
    Denotes text (f (value (text.take 31))) ↔
      (∀ b ∈ text, IsDigit b) ∧ value text < w ∧ (text.length ≤ 31 ∨ value text = 0) := by
  constructor
  · rintro ⟨-, hdigits, hv⟩
    refine ⟨hdigits, ?_, ?_⟩
    · rw [hv]
      exact hlt _
    · by_contra hlong
      rw [not_or, Nat.not_le] at hlong
      have hcut := value_take_lt hlong.1 hlong.2
      have hf := hle (value (text.take 31))
      omega
  · rintro ⟨hdigits, hw, hshort | hzero⟩
    · rw [List.take_of_length_le hshort, heq _ hw]
      exact ⟨hne, hdigits, rfl⟩
    · have hcut := value_take_le (s := text) (n := 31)
      have h0 : value (text.take 31) = 0 := by omega
      rw [h0, heq 0 (by omega)]
      exact ⟨hne, hdigits, hzero⟩

/-- The same for the caller's parameters. -/
theorem wrote_iff {f : ℕ → ℕ} (hle : ∀ x, f x ≤ x) (hlt : ∀ x, f x < w)
    (heq : ∀ x, x < w → f x = x) (htext : paramText params key = some text) (hne : text ≠ []) :
    Wrote params key (f (value (text.take 31))) ↔ Fits params key w := by
  have h := denotes_iff hle hlt heq hne
  constructor
  · rintro ⟨text', htext', hd⟩
    obtain rfl := Option.some.inj (htext.symm.trans htext')
    exact ⟨text, htext, h.mp hd⟩
  · rintro ⟨text', htext', hf⟩
    obtain rfl := Option.some.inj (htext.symm.trans htext')
    exact ⟨text, htext, h.mpr hf⟩

/-- **The number that `parse_uint_param` reads.** -/
theorem parseUintParam_exact (h : parseUintParam params key = some v) :
    Wrote params key v ↔ Fits params key (2 ^ 64) := by
  obtain ⟨text, htext, hne, -, rfl⟩ := parseUintParam_spec h
  exact wrote_iff (f := fun x => x % 2 ^ 64) (fun x => Nat.mod_le x _)
    (fun x => Nat.mod_lt x (by decide)) (fun x hx => Nat.mod_eq_of_lt hx) htext hne

/-- **The number that it reads, cast to `int`.** -/
theorem parseUintParam_exact_int {pid : ℕ} (h : parseUintParam params key = some v)
    (hpid : (pid : ℤ) = toInt32 v) : Wrote params key pid ↔ Fits params key (2 ^ 31) := by
  obtain ⟨text, htext, hne, -, rfl⟩ := parseUintParam_spec h
  have hp : pid = (toInt32 (value (text.take 31) % 2 ^ 64 : ℕ)).toNat := by
    rw [← hpid, Int.toNat_natCast]
  rw [hp]
  refine wrote_iff (f := fun x => (toInt32 (x % 2 ^ 64 : ℕ)).toNat) (fun x => ?_) (fun x => ?_)
    (fun x hx => ?_) htext hne
  all_goals
    unfold toInt32
    omega

/-! ### What the tools act on -/

/-- `agent_send_message` touches the process with that pid only. -/
theorem agentSendMessage_target {k : Kernel} {src j : Slot} {target type : ℤ} {payload : List UInt8}
    {requestId : UInt64} {now : ℕ} {r : Kernel × ℤ}
    (hr : agentSendMessage k src target type payload requestId now = r)
    (h : r.1.procs j ≠ k.procs j) : ((k.procs j).pid : ℤ) = target := by
  rw [← hr] at h
  unfold agentSendMessage at h
  split at h
  · exact absurd rfl h
  split at h
  · exact absurd rfl h
  · rename_i i hfind
    have hi := List.find?_some hfind
    rw [Bool.and_eq_true, Bool.and_eq_true, beq_iff_eq] at hi
    by_cases hj : j = i
    · rw [hj]
      exact hi.1.1
    · exact absurd (Kernel.setProc_ne _ _ _ _ hj) h

/-- The tool refuses the parameters, or sends a message to the pid it has read. -/
theorem toolSendMessageTool_cases (k : Kernel) (caller : Slot) (params : List UInt8) (now : ℕ) :
    (∃ resp, toolSendMessageTool k caller params now = (k, resp)) ∨
      ∃ v message resp r, parseUintParam params (lit "target_pid") = some v ∧
        agentSendMessage k caller (toInt32 v) agentMessageTypeNormal message 0 now = r ∧
        toolSendMessageTool k caller params now = (r.1, resp) := by
  unfold toolSendMessageTool
  cases hv : parseUintParam params (lit "target_pid") with
  | none => exact .inl ⟨_, rfl⟩
  | some v =>
    cases strFind params (lit "message=") with
    | none => exact .inl ⟨_, rfl⟩
    | some off => exact .inr ⟨v, _, _, _, rfl, rfl, rfl⟩

theorem toolSendMessageTool_target {k : Kernel} {caller j : Slot} {now : ℕ}
    (h : (toolSendMessageTool k caller params now).1.procs j ≠ k.procs j) :
    ∃ v, parseUintParam params (lit "target_pid") = some v ∧
      ((k.procs j).pid : ℤ) = toInt32 v := by
  rcases toolSendMessageTool_cases k caller params now with
    ⟨resp, hsame⟩ | ⟨v, message, resp, r, hv, hr, hsent⟩
  · rw [hsame] at h
    exact absurd rfl h
  · rw [hsent] at h
    exact ⟨v, hv, agentSendMessage_target hr h⟩

/-- `agent_proc_lease_commit` frees the lease with that id only. -/
theorem agentProcLeaseCommit_target {g : AgentGlobal} {p : Proc} {leaseId expected now : ℕ}
    {slot : Fin agentLeaseMax}
    (h : (agentProcLeaseCommit g p leaseId expected now).1.leases slot ≠ g.leases slot) :
    (g.leases slot).leaseId = leaseId := by
  unfold agentProcLeaseCommit at h
  split at h
  · exact absurd rfl h
  · rename_i found hfound
    have hfirst := Table.first_some hfound
    split_ifs at h
    · exact absurd rfl h
    · exact absurd rfl h
    · by_cases hs : slot = found
      · rw [hs]
        simp at hfirst
        exact hfirst.2
      · exact absurd (Function.update_of_ne hs _ _) h

theorem agentProcLeaseAbort_target {g : AgentGlobal} {p : Proc} {leaseId : ℕ}
    {slot : Fin agentLeaseMax}
    (h : (agentProcLeaseAbort g p leaseId).1.leases slot ≠ g.leases slot) :
    (g.leases slot).leaseId = leaseId := by
  unfold agentProcLeaseAbort at h
  split at h
  · exact absurd rfl h
  · rename_i found hfound
    have hfirst := Table.first_some hfound
    by_cases hs : slot = found
    · rw [hs]
      simp at hfirst
      exact hfirst.1.2
    · exact absurd (Function.update_of_ne hs _ _) h

theorem toolLeaseCommit_target {g : AgentGlobal} {p : Proc} {now : ℕ} {slot : Fin agentLeaseMax}
    (h : (toolLeaseCommit g p params now).1.leases slot ≠ g.leases slot) :
    parseUintParam params (lit "lease_id") = some (g.leases slot).leaseId := by
  unfold toolLeaseCommit at h
  split at h
  · rename_i leaseId expected hid hexp
    rw [hid, agentProcLeaseCommit_target h]
  · exact absurd rfl h

theorem toolLeaseAbort_target {g : AgentGlobal} {p : Proc} {slot : Fin agentLeaseMax}
    (h : (toolLeaseAbort g p params).1.leases slot ≠ g.leases slot) :
    parseUintParam params (lit "lease_id") = some (g.leases slot).leaseId := by
  unfold toolLeaseAbort at h
  split at h
  · rename_i leaseId hid
    rw [hid, agentProcLeaseAbort_target h]
  · exact absurd rfl h

/-- The lease tools of the router are these. -/
theorem useTool_lease (s : AccessState) (i : Slot) (params : List UInt8) (env : ToolEnv) :
    s.useTool i params env .leaseCommit =
        s.setGlobal (toolLeaseCommit s.kernel.agentGlobal (s.proc i) params env.now).1 ∧
      s.useTool i params env .leaseAbort =
        s.setGlobal (toolLeaseAbort s.kernel.agentGlobal (s.proc i) params).1 := by
  constructor
  · unfold AccessState.useTool toolLeaseCommit
    cases parseUintParam params (lit "lease_id") with
    | none => rfl
    | some leaseId => cases parseUintParam params (lit "expected_version") <;> rfl
  · unfold AccessState.useTool toolLeaseAbort
    cases parseUintParam params (lit "lease_id") <;> rfl

/-- **Numbers are read exactly when they fit**: below 2^64 for `parse_uint_param` and for a lease id,
below 2^31 for a pid, in at most 31 digits. Then, and only then, the number, the process that gets a
message and the lease that is freed are the ones whose numeral the caller wrote. -/
theorem numbers_exact (params : List UInt8) :
    (∀ key v, parseUintParam params key = some v →
      (Wrote params key v ↔ Fits params key (2 ^ 64))) ∧
    (∀ k caller now j, (toolSendMessageTool k caller params now).1.procs j ≠ k.procs j →
      (Wrote params (lit "target_pid") (k.procs j).pid ↔ Fits params (lit "target_pid") (2 ^ 31))) ∧
    (∀ g p now slot, (toolLeaseCommit g p params now).1.leases slot ≠ g.leases slot →
      (Wrote params (lit "lease_id") (g.leases slot).leaseId ↔
        Fits params (lit "lease_id") (2 ^ 64))) ∧
    ∀ g p slot, (toolLeaseAbort g p params).1.leases slot ≠ g.leases slot →
      (Wrote params (lit "lease_id") (g.leases slot).leaseId ↔
        Fits params (lit "lease_id") (2 ^ 64)) := by
  refine ⟨fun key v h => parseUintParam_exact h, fun k caller now j h => ?_,
    fun g p now slot h => parseUintParam_exact (toolLeaseCommit_target h),
    fun g p slot h => parseUintParam_exact (toolLeaseAbort_target h)⟩
  obtain ⟨v, hv, hpid⟩ := toolSendMessageTool_target h
  exact parseUintParam_exact_int hv hpid

end

/-- An Agent in every slot, with pids from 1. -/
def pidsFromOne : Kernel :=
  { Kernel.boot with procs := fun i =>
      { Proc.boot with
        state := .runnable
        pid := i + 1
        ident := { Ident.init with agentType := agentTypeWorker } } }

/-- The table holds one lease, with the id 7, of process 1. -/
def oneLease : AgentGlobal :=
  { AgentGlobal.init with
    leases := Function.update AgentGlobal.init.leases 0 ⟨true, 1, 5, 1, 0, 7, 0, 100⟩ }

set_option maxRecDepth 100000 in
/-- A message to pid 3. -/
theorem numbers_exact_three :
    Wrote (lit "target_pid=3;message=hi") (lit "target_pid") 3 ↔
      Fits (lit "target_pid=3;message=hi") (lit "target_pid") (2 ^ 31) :=
  (numbers_exact (lit "target_pid=3;message=hi")).2.1 pidsFromOne 0 5 2 fun h =>
    absurd (congrArg (fun p : Proc => p.mailbox.count) h) (by decide +kernel)

set_option maxRecDepth 100000 in
/-- `4294967299` is 3 as an `int`, and `18446744073709551623` is 7 modulo 2^64. -/
theorem numbers_wrap :
    (parseUintParam (lit "n=18446744073709551623") (lit "n") = some 7 ∧
      ¬ Wrote (lit "n=18446744073709551623") (lit "n") 7) ∧
    ((toolSendMessageTool pidsFromOne 0 (lit "target_pid=4294967299;message=hi") 5).2.status =
        agentToolOk ∧
      ((toolSendMessageTool pidsFromOne 0 (lit "target_pid=4294967299;message=hi") 5).1.procs
        2).mailbox.count ≠ (pidsFromOne.procs 2).mailbox.count ∧
      ¬ Wrote (lit "target_pid=4294967299;message=hi") (lit "target_pid") (pidsFromOne.procs 2).pid) ∧
    ((toolLeaseAbort oneLease (pidsFromOne.procs 0) (lit "lease_id=18446744073709551623")).1.leases 0 =
        AgentEditLease.zero ∧
      ¬ Wrote (lit "lease_id=18446744073709551623") (lit "lease_id") 7) := by
  have hno : ∀ params key text v, paramText params key = some text → ¬ Denotes text v →
      ¬ Wrote params key v := by
    rintro params key text v htext hd ⟨text', htext', hd'⟩
    obtain rfl := Option.some.inj (htext.symm.trans htext')
    exact hd hd'
  refine ⟨⟨by decide +kernel, ?_⟩, ⟨by decide +kernel, by decide +kernel, ?_⟩, by decide +kernel, ?_⟩
  · exact hno _ _ (lit "18446744073709551623") _ (by decide +kernel) (by decide +kernel)
  · exact hno _ _ (lit "4294967299") _ (by decide +kernel) (by decide +kernel)
  · exact hno _ _ (lit "18446744073709551623") _ (by decide +kernel) (by decide +kernel)

end AgentOS
