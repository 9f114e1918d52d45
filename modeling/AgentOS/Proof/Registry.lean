import AgentOS.Model.Router
import AgentOS.Proof.DynamicCall

/-!
# The registry of dynamic tools

* `builtin_lists`, `not_builtin_lists`: the policy table, `tool_is_builtin` and the dispatch chain
  agree on every name.
* `sysToolRegister_cases`: a registration in closed form; a refused one changes nothing.
* `registryNext_tools`: what one step does to the tool table.
* `toolsInv_step`, `registered_path`: names stay apart; every entry was registered with the
  capability.
* **`tool_registry`**: the table and the dispatch in every reachable state.
-/

namespace AgentOS

open Machine

/-! ### The three lists of built-in names -/

namespace BuiltinTool

/-- The name of a built-in tool. -/
def name : BuiltinTool → String
  | queryProcess => "query_process"
  | getSystemStatus => "get_system_status"
  | sendMessage => "send_message"
  | readContext => "read_context"
  | readFile => "read_file"
  | patchFile => "patch_file"
  | runRuleTest => "run_rule_test"
  | diffFile => "diff_file"
  | setFileAttr => "set_file_attr"
  | getFileAttr => "get_file_attr"
  | delFileAttr => "del_file_attr"
  | queryFile => "query_file"
  | queryAgent => "query_agent"
  | getWorkflowMetrics => "get_workflow_metrics"
  | leaseBegin => "lease_begin"
  | leaseCommit => "lease_commit"
  | leaseAbort => "lease_abort"

/-- The capability it requires. -/
def requiredCap : BuiltinTool → BitVec 64
  | queryProcess | getSystemStatus | queryAgent => agentCapQueryProcess
  | sendMessage => agentCapSendMessage
  | readContext => 0
  | readFile | diffFile => agentCapReadFile
  | patchFile | setFileAttr | delFileAttr => agentCapPatchFile
  | runRuleTest | getFileAttr | queryFile => agentCapQueryFile
  | getWorkflowMetrics => agentCapAuditRead
  | leaseBegin | leaseCommit | leaseAbort => agentCapLeaseAcquire

end BuiltinTool

theorem lookupName_congr {α : Type} {l : List (String × α)} {a b : List UInt8}
    (h : streq a b = true) : lookupName l a = lookupName l b := by
  unfold lookupName
  simp only [streq_congr h]

/-- A name is in a list exactly if it is equal to one of its names. -/
theorem lookupName_isSome {α : Type} (l : List (String × α)) (name : List UInt8) :
    (lookupName l name).isSome = (l.map Prod.fst).any fun t => streq name (lit t) := by
  induction l with
  | nil => rfl
  | cons e l ih =>
    simp only [lookupName, List.find?_cons, List.map_cons, List.any_cons] at ih ⊢
    cases streq name (lit e.1)
    · simpa using ih
    · simp

theorem lookupName_mem {α : Type} {l : List (String × α)} {name : List UInt8} {x : α}
    (h : lookupName l name = some x) : ∃ e ∈ l, streq name (lit e.1) = true ∧ e.2 = x := by
  unfold lookupName at h
  rw [Option.map_eq_some_iff] at h
  obtain ⟨e, he, hx⟩ := h
  have hname : streq name (lit e.1) = true := by simpa using List.find?_some he
  exact ⟨e, List.mem_of_find?_eq_some he, hname, hx⟩

/-- On the name of a built-in tool the three lists agree. -/
theorem builtin_lists {name : List UInt8} {t : BuiltinTool} (h : streq name (lit t.name) = true) :
    lookupName builtinPolicies name = some t.requiredCap ∧ toolIsBuiltin name = true ∧
      lookupName dispatchChain name = some t := by
  have hlists : ∀ e ∈ dispatchChain, lookupName builtinPolicies (lit e.1) = some e.2.requiredCap ∧
      lookupName dispatchChain (lit e.1) = some e.2 := by decide +kernel
  have hmem : (t.name, t) ∈ dispatchChain := by cases t <;> decide
  obtain ⟨hpolicy, hdispatch⟩ := hlists _ hmem
  rw [lookupName_congr h, lookupName_congr h]
  refine ⟨hpolicy, ?_, hdispatch⟩
  have hname : t.name ∈ dispatchChain.map Prod.fst := List.mem_map_of_mem hmem
  exact List.any_eq_true.2 ⟨_, hname, h⟩

/-- On every other name they agree as well. -/
theorem not_builtin_lists {name : List UInt8} (h : toolIsBuiltin name = false) :
    lookupName builtinPolicies name = none ∧ lookupName dispatchChain name = none := by
  have hp : builtinPolicies.map Prod.fst = builtinTools := rfl
  have hd : dispatchChain.map Prod.fst = builtinTools := rfl
  constructor
  · rw [← Option.not_isSome_iff_eq_none, lookupName_isSome, hp, Bool.not_eq_true]
    exact h
  · rw [← Option.not_isSome_iff_eq_none, lookupName_isSome, hd, Bool.not_eq_true]
    exact h

/-- A name that `tool_is_builtin` knows is that of a handler. -/
theorem builtin_of_toolIsBuiltin {name : List UInt8} (h : toolIsBuiltin name = true) :
    ∃ t : BuiltinTool, streq name (lit t.name) = true := by
  have hd : dispatchChain.map Prod.fst = builtinTools := rfl
  have hs : (lookupName dispatchChain name).isSome = true := by
    rw [lookupName_isSome, hd]
    exact h
  obtain ⟨t, ht⟩ := Option.isSome_iff_exists.1 hs
  obtain ⟨e, he, hname, rfl⟩ := lookupName_mem ht
  have hnames : ∀ e ∈ dispatchChain, e.1 = e.2.name := by decide
  exact ⟨e.2, hnames e he ▸ hname⟩

/-! ### Registration -/

/-- What an accepted registration has found: an Agent with the capability, a name that is not
built in and not in the table, and the first free slot. -/
structure Registers (r : Runtime) (p : Proc) (name : List UInt8) (flags : BitVec 32)
    (slot : Fin agentDynamicToolMax) : Prop where
  agent : p.ident.agentType ≠ agentTypeNormal
  cap : p.ident.agentCapabilities &&& agentCapRegisterTool ≠ 0
  fits : strlen name < agentToolNameMax
  nonempty : cstr name ≠ []
  notBuiltin : toolIsBuiltin name = false
  flags : flags &&& ~~~agentToolFlagPublic = 0
  fresh : findTool r name = none
  slot : Table.first r.dynamicTools (fun t => !t.used) = some slot

/-- The entry that a registration stores. -/
def newTool (p : Proc) (name : List UInt8) (flags : BitVec 32) : AgentDynamicTool where
  used := true
  name := cstr name
  ownerPid := p.pid
  ownerGroup := p.ident.agentGroup
  flags := flags
  requiredCap := 0

def Runtime.setTool (r : Runtime) (slot : Fin agentDynamicToolMax) (d : AgentDynamicTool) :
    Runtime :=
  { r with dynamicTools := Function.update r.dynamicTools slot d }

/-- **A registration**: refused without any change, or stored in the first free slot. -/
theorem sysToolRegister_cases (r : Runtime) (p : Proc) (name : List UInt8) (flags : BitVec 32) :
    ((sysToolRegister r p name flags).2 ≠ 0 ∧ (sysToolRegister r p name flags).1 = r) ∨
      ∃ slot, Registers r p name flags slot ∧
        sysToolRegister r p name flags = (r.setTool slot (newTool p name flags), 0) := by
  unfold sysToolRegister
  split
  · rename_i hfits
    unfold agentToolRegister
    split
    · exact .inl ⟨by show agentToolErrNotAgent ≠ 0; decide, rfl⟩
    rename_i hagent
    split
    · exact .inl ⟨by show agentToolErrPermission ≠ 0; decide, rfl⟩
    rename_i hcap
    split
    · exact .inl ⟨by show agentToolErrBadParam ≠ 0; decide, rfl⟩
    rename_i hbad
    split
    · exact .inl ⟨by show agentToolErrBusy ≠ 0; decide, rfl⟩
    rename_i hdup
    split
    · exact .inl ⟨by show agentToolErrNoSpace ≠ 0; decide, rfl⟩
    · rename_i slot hslot
      simp only [not_or, not_not, Bool.not_eq_true] at hbad hdup
      refine .inr ⟨slot, ⟨hagent, hcap, hfits, ?_, hbad.2.1, hbad.2.2, ?_, hslot⟩, ?_⟩
      · exact fun he => hbad.1 (by simp [strlen, he])
      · simpa using hdup
      · simp only [newTool, Runtime.setTool, safestrcpy_of_lt hfits]
  · exact .inl ⟨by show (-1 : ℤ) ≠ 0; decide, rfl⟩

theorem Registers.free {r : Runtime} {p : Proc} {name : List UInt8} {flags : BitVec 32}
    {slot : Fin agentDynamicToolMax} (h : Registers r p name flags slot) :
    (r.dynamicTools slot).used = false := by
  simpa using Table.first_some h.slot

theorem sysToolRegister_ok {r : Runtime} {p : Proc} {name : List UInt8} {flags : BitVec 32}
    {slot : Fin agentDynamicToolMax} (h : Registers r p name flags slot) :
    sysToolRegister r p name flags = (r.setTool slot (newTool p name flags), 0) := by
  have hlen : strlen name ≠ 0 := fun he => h.nonempty (List.eq_nil_of_length_eq_zero he)
  have hbad : ¬ (strlen name = 0 ∨ toolIsBuiltin name = true ∨
      flags &&& ~~~agentToolFlagPublic ≠ 0) := by
    simp [hlen, h.notBuiltin, h.flags]
  unfold sysToolRegister agentToolRegister
  rw [if_pos h.fits, if_neg h.agent, if_neg h.cap, if_neg hbad, if_neg (by simp [h.fresh])]
  simp only [h.slot, newTool, Runtime.setTool, safestrcpy_of_lt h.fits]

/-! ### The tool table along a run -/

abbrev DynState.tools (s : DynState) : Fin agentDynamicToolMax → AgentDynamicTool :=
  s.runtime.dynamicTools

/-- What a step does to the tool table. -/
inductive ToolChange (s : DynState) (l : DynLabel) (t : DynState) : Prop
  | same (h : t.tools = s.tools)
  | add (i : Slot) (name : List UInt8) (flags : BitVec 32) (slot : Fin agentDynamicToolMax)
      (hl : l = .register i name flags) (hi : s.points i = .user)
      (hr : Registers s.runtime (s.proc i) name flags slot)
      (hok : (sysToolRegister s.runtime (s.proc i) name flags).2 = 0)
      (h : t = s.setRuntime (s.runtime.setTool slot (newTool (s.proc i) name flags)))
  | exit (i : Slot) (hl : l = .exit i)
      (h : t.tools =
        Table.sweep s.tools (fun d => d.used && d.ownerPid == (s.proc i).pid) AgentDynamicTool.zero)

theorem dynamicCallRound_tools (r : Runtime) (killed : Bool) (slot : Fin agentDynamicRequestMax)
    (id : ℤ) : (dynamicCallRound r killed slot id).1.dynamicTools = r.dynamicTools := by
  unfold dynamicCallRound
  dsimp only
  split
  · rfl
  split
  · rfl
  split <;> rfl

theorem callRound_tools (s : DynState) (i : Slot) (slot : Fin agentDynamicRequestMax) (id : ℤ) :
    (s.callRound i slot id).tools = s.tools := by
  have h := dynamicCallRound_tools s.runtime (s.proc i).killed slot id
  unfold DynState.callRound
  dsimp only
  split <;> exact h

theorem recvRound_tools (s : DynState) (i : Slot) : (s.recvRound i).tools = s.tools := by
  have h : (agentToolRecvRound s.runtime (s.proc i).pid (s.proc i).killed).1.dynamicTools =
      s.runtime.dynamicTools := by
    rcases agentToolRecvRound_cases s.runtime (s.proc i).pid (s.proc i).killed with
      ⟨j, -, -, -, e⟩ | e | e <;> rw [e]
    rfl
  unfold DynState.recvRound
  dsimp only
  split <;> exact h

/-- **One step on the tool table.** -/
theorem registryNext_tools {s t : DynState} {l : DynLabel} (h : registryNext s l = some t) :
    ToolChange s l t := by
  cases l with
  | register i name flags =>
    simp only [registryNext] at h
    split at h <;> [skip; cases h]
    rename_i hi
    obtain rfl := Option.some.inj h
    rcases sysToolRegister_cases s.runtime (s.proc i) name flags with ⟨-, e⟩ | ⟨slot, hr, e⟩
    · exact .same (by rw [e]; rfl)
    · exact .add i name flags slot rfl hi hr (by rw [e]) (by rw [e])
  | call i tool params =>
    simp only [registryNext, DynState.next] at h
    split at h <;> [skip; cases h]
    split at h <;> (obtain rfl := Option.some.inj h; exact .same rfl)
  | enter i =>
    simp only [registryNext, DynState.next] at h
    split at h <;> [skip; cases h]
    rename_i tool params hi
    split at h
    · obtain rfl := Option.some.inj h
      exact .same rfl
    · rename_i r slot ha
      obtain rfl := Option.some.inj h
      obtain ⟨-, -, q, -, -, -, -, -, -, e⟩ := dynamicCallAdmit_ok ha
      have htools : r.dynamicTools = s.tools := by rw [e]; rfl
      refine .same ?_
      rw [callRound_tools]
      exact htools
  | resumeCall i =>
    simp only [registryNext, DynState.next] at h
    split at h <;> [skip; cases h]
    obtain rfl := Option.some.inj h
    exact .same (callRound_tools ..)
  | recv i =>
    simp only [registryNext, DynState.next] at h
    split at h <;> [skip; cases h]
    split at h
    · obtain rfl := Option.some.inj h
      exact .same rfl
    · obtain rfl := Option.some.inj h
      exact .same (recvRound_tools ..)
  | resumeRecv i =>
    simp only [registryNext, DynState.next] at h
    split at h <;> [skip; cases h]
    obtain rfl := Option.some.inj h
    exact .same (recvRound_tools ..)
  | reply i id result status =>
    simp only [registryNext, DynState.next] at h
    split at h <;> [skip; cases h]
    split at h
    · rename_i hok
      obtain rfl := Option.some.inj h
      obtain ⟨j, -, -, -, e⟩ := agentToolReply_ok hok
      refine .same ?_
      show (agentToolReply s.runtime (s.proc i) id result status).1.dynamicTools = s.tools
      rw [e]
      rfl
    · obtain rfl := Option.some.inj h
      exact .same rfl
  | kill i => obtain rfl := Option.some.inj h; exact .same rfl
  | exit i =>
    simp only [registryNext, DynState.next] at h
    split at h <;> [skip; cases h]
    obtain rfl := Option.some.inj h
    exact .exit i rfl rfl
  | spawn i p =>
    simp only [registryNext, DynState.next] at h
    split at h <;> [skip; cases h]
    obtain rfl := Option.some.inj h
    exact .same rfl
  | other i p => obtain rfl := Option.some.inj h; exact .same rfl

/-! ### The invariants -/

/-- Entries in use have proper names, all different, and require no capability. -/
structure ToolsInv (f : Fin agentDynamicToolMax → AgentDynamicTool) : Prop where
  named : ∀ t, (f t).used = true →
    (f t).name ≠ [] ∧ cstr (f t).name = (f t).name ∧ toolIsBuiltin (f t).name = false
  distinct : ∀ t t', (f t).used = true → (f t').used = true →
    streq (f t).name (f t').name = true → t = t'
  open_ : ∀ t, (f t).used = true → (f t).requiredCap = 0

theorem toolIsBuiltin_congr {a b : List UInt8} (h : streq a b = true) :
    toolIsBuiltin a = toolIsBuiltin b := by
  unfold toolIsBuiltin
  simp only [streq_congr h]

/-- An accepted registration keeps the names apart. -/
theorem ToolsInv.add {r : Runtime} {p : Proc} {name : List UInt8} {flags : BitVec 32}
    {slot : Fin agentDynamicToolMax} (h : ToolsInv r.dynamicTools)
    (hr : Registers r p name flags slot) :
    ToolsInv (r.setTool slot (newTool p name flags)).dynamicTools := by
  have hself : streq (cstr name) name = true := streq_iff.2 (cstr_idem name)
  have hfresh : ∀ t, (r.dynamicTools t).used = true → streq (r.dynamicTools t).name name = false := by
    intro t ht
    have hnone := Table.first_none.1 hr.fresh t
    simpa [ht] using hnone
  show ToolsInv (Function.update r.dynamicTools slot (newTool p name flags))
  refine ⟨fun t ht => ?_, fun t t' ht ht' he => ?_, fun t ht => ?_⟩
  · by_cases hs : t = slot
    · subst hs
      rw [Function.update_self]
      exact ⟨hr.nonempty, cstr_idem name, (toolIsBuiltin_congr hself).trans hr.notBuiltin⟩
    · rw [Function.update_of_ne hs] at ht ⊢
      exact h.named t ht
  · by_cases hs : t = slot <;> by_cases hs' : t' = slot
    · rw [hs, hs']
    · -- an old entry never has the new name
      subst hs
      rw [Function.update_of_ne hs'] at ht' he
      rw [Function.update_self, streq_iff] at he
      have hold : streq (r.dynamicTools t').name name = true :=
        streq_iff.2 (he.symm.trans (cstr_idem name))
      rw [hfresh t' ht'] at hold
      cases hold
    · subst hs'
      rw [Function.update_of_ne hs] at ht he
      rw [Function.update_self, streq_iff] at he
      have hold : streq (r.dynamicTools t).name name = true :=
        streq_iff.2 (he.trans (cstr_idem name))
      rw [hfresh t ht] at hold
      cases hold
    · rw [Function.update_of_ne hs] at ht he
      rw [Function.update_of_ne hs'] at ht' he
      exact h.distinct t t' ht ht' he
  · by_cases hs : t = slot
    · subst hs
      rw [Function.update_self]
      rfl
    · rw [Function.update_of_ne hs] at ht ⊢
      exact h.open_ t ht

/-- Entries that stay used are the old ones. -/
theorem ToolsInv.sweep {f : Fin agentDynamicToolMax → AgentDynamicTool} (h : ToolsInv f)
    (q : AgentDynamicTool → Bool) : ToolsInv (Table.sweep f q AgentDynamicTool.zero) := by
  have hold : ∀ t, (Table.sweep f q AgentDynamicTool.zero t).used = true →
      Table.sweep f q AgentDynamicTool.zero t = f t := by
    intro t ht
    rcases Table.sweep_cases f q AgentDynamicTool.zero t with ⟨-, e⟩ | ⟨-, e⟩
    · rw [e] at ht
      cases ht
    · exact e
  refine ⟨fun t ht => ?_, fun t t' ht ht' he => ?_, fun t ht => ?_⟩
  · have e := hold t ht
    rw [e] at ht ⊢
    exact h.named t ht
  · have e := hold t ht
    have e' := hold t' ht'
    rw [e] at ht he
    rw [e'] at ht' he
    exact h.distinct t t' ht ht' he
  · have e := hold t ht
    rw [e] at ht ⊢
    exact h.open_ t ht

theorem toolsInv_step (s : DynState) (l : DynLabel) (t : DynState) (h : ToolsInv s.tools)
    (_ : always s l) (hn : registryMachine.next s l = some t) : ToolsInv t.tools := by
  rcases registryNext_tools hn with e | ⟨i, name, flags, slot, -, -, hr, -, rfl⟩ | ⟨i, -, e⟩
  · exact e ▸ h
  · exact h.add hr
  · exact e ▸ h.sweep _

/-- A step of this machine is one of `dynamicMachine`, or a refused name. -/
theorem registryNext_dynamic {s t : DynState} {l : DynLabel} (h : registryNext s l = some t) :
    dynamicMachine.next s l = some t ∨ t = s := by
  cases l with
  | register i name flags =>
    simp only [registryNext, sysToolRegister] at h
    split at h <;> [skip; cases h]
    rename_i hi
    split at h
    · exact .inl (by simpa [dynamicMachine, DynState.next, hi] using h)
    · exact .inr (Option.some.inj h).symm
  | _ => exact .inl h

theorem registry_dynInv {tr : List DynLabel} {s : DynState}
    (h : registryMachine.Reach always tr s) : DynInv s := by
  refine Reach.inv (M := registryMachine) (P := DynInv) (fun s hi => dynInv_init s hi)
    (fun s l t hs ha hn => ?_) h
  rcases registryNext_dynamic hn with hn | rfl
  · exact dynInv_step s l t hs ha hn
  · exact hs

theorem registry_toolsInv {tr : List DynLabel} {s : DynState}
    (h : registryMachine.Reach always tr s) : ToolsInv s.tools := by
  refine h.inv (P := fun s => ToolsInv s.tools) (fun s hi => ?_) toolsInv_step
  have hz : ∀ t, (s.tools t).used ≠ true := by
    intro t
    simp only [DynState.tools, hi.1]
    exact Bool.false_ne_true
  exact ⟨fun t ht => absurd ht (hz t), fun t _ ht => absurd ht (hz t), fun t ht => absurd ht (hz t)⟩

/-! ### Who registered an entry -/

/-- Entry `d` of state `s` was stored by a registration of the run: its owner made the call and
had `AGENT_CAP_REGISTER_TOOL` then. -/
def RegisteredBy (s₀ : DynState) (tr : List DynLabel) (s : DynState) (d : AgentDynamicTool) :
    Prop :=
  ∃ tr₁ tr₂ u i name flags, tr = tr₁ ++ .register i name flags :: tr₂ ∧
    registryMachine.Path always s₀ tr₁ u ∧
    registryMachine.Path always u (.register i name flags :: tr₂) s ∧
    (sysToolRegister u.runtime (u.proc i) name flags).2 = 0 ∧
    (u.proc i).ident.agentCapabilities &&& agentCapRegisterTool ≠ 0 ∧
    d = newTool (u.proc i) name flags

theorem RegisteredBy.snoc {s₀ s t : DynState} {tr : List DynLabel} {l : DynLabel}
    {d : AgentDynamicTool} (h : RegisteredBy s₀ tr s d) (hn : registryMachine.next s l = some t) :
    RegisteredBy s₀ (tr ++ [l]) t d := by
  obtain ⟨tr₁, tr₂, u, i, name, flags, rfl, h₁, h₂, hok, hcap, hd⟩ := h
  refine ⟨tr₁, tr₂ ++ [l], u, i, name, flags, by simp, h₁, ?_, hok, hcap, hd⟩
  exact h₂.snoc trivial hn

/-- **Run**: every entry in use was registered by its owner, who had the capability. -/
theorem registered_path {s₀ s : DynState} {tr : List DynLabel}
    (h : registryMachine.Path always s₀ tr s) (h₀ : s₀.runtime = Runtime.init) :
    ∀ t, (s.tools t).used = true → RegisteredBy s₀ tr s (s.tools t) := by
  induction h with
  | nil =>
    intro t ht
    rw [DynState.tools, h₀] at ht
    cases ht
  | snoc hp ha hn ih =>
    rename_i u v tr l
    intro t ht
    rcases registryNext_tools hn with e | ⟨i, name, flags, slot, rfl, -, hr, hok, rfl⟩ | ⟨i, -, e⟩
    · rw [e] at ht ⊢
      exact (ih t ht).snoc hn
    · by_cases hs : t = slot
      · -- the entry that this very step stores
        subst hs
        refine ⟨tr, [], u, i, name, flags, rfl, hp, Path.single trivial hn, hok, hr.cap, ?_⟩
        exact Function.update_self ..
      · have e : (u.setRuntime (u.runtime.setTool slot (newTool (u.proc i) name flags))).tools t =
            u.tools t := Function.update_of_ne hs ..
        rw [e] at ht ⊢
        exact (ih t ht).snoc hn
    · rw [e] at ht ⊢
      rcases Table.sweep_cases u.tools (fun d => d.used && d.ownerPid == (u.proc i).pid)
        AgentDynamicTool.zero t with ⟨-, e'⟩ | ⟨-, e'⟩
      · rw [e'] at ht
        cases ht
      · rw [e'] at ht ⊢
        exact (ih t ht).snoc hn

/-! ### The registry -/

/-- What the registry and the Router guarantee in a state. -/
structure ToolRegistry (s : DynState) : Prop where
  named : ∀ t, (s.tools t).used = true →
    (s.tools t).name ≠ [] ∧ toolIsBuiltin (s.tools t).name = false
  distinct : ∀ t t', (s.tools t).used = true → (s.tools t').used = true →
    streq (s.tools t).name (s.tools t').name = true → t = t'
  live : ∀ t, (s.tools t).used = true → (s.tools t).ownerPid ∉ s.exited
  /-- A built-in name reaches its handler, with the capability of the tool. -/
  builtin : ∀ p name (t : BuiltinTool), p.ident.agentType ≠ agentTypeNormal →
    streq name (lit t.name) = true →
    agentToolRoute s.runtime p name =
      if t.requiredCap = 0 ∨ p.ident.agentCapabilities &&& t.requiredCap ≠ 0 then .builtin t
      else .error (toolRespSet agentToolErrPermission (lit "permission denied"))
  /-- A registered name reaches its owner, or the group check or a full queue refuses it. -/
  registered : ∀ p name params t, p.ident.agentType ≠ agentTypeNormal →
    (s.tools t).used = true → streq (s.tools t).name name = true →
    agentToolRoute s.runtime p name =
        (if agentSameGroupOrPublic p (s.tools t).ownerGroup (s.tools t).flags then .dynamic
          else .error (toolRespSet agentToolErrPermission (lit "permission denied"))) ∧
      (agentSameGroupOrPublic p (s.tools t).ownerGroup (s.tools t).flags = true →
        dynamicCallAdmit s.runtime p name params =
            .error (toolRespSet agentToolErrBusy (lit "tool request queue full")) ∨
          ∃ r slot, dynamicCallAdmit s.runtime p name params = .ok (r, slot) ∧
            (r.dynamicRequests slot).servicePid = (s.tools t).ownerPid)
  /-- Any other name is not found. -/
  unknown : ∀ p name params, p.ident.agentType ≠ agentTypeNormal → toolIsBuiltin name = false →
    (∀ t, (s.tools t).used = true → streq (s.tools t).name name = false) →
    agentToolRoute s.runtime p name = .dynamic ∧
      dynamicCallAdmit s.runtime p name params =
        .error (toolRespSet agentToolErrToolNotFound (lit "tool not found"))
  refused : ∀ p name flags, (sysToolRegister s.runtime p name flags).2 ≠ 0 →
    (sysToolRegister s.runtime p name flags).1 = s.runtime

section

variable {r : Runtime} {p : Proc} {name params : List UInt8} {t : Fin agentDynamicToolMax}

theorem route_builtin {t : BuiltinTool} (hp : p.ident.agentType ≠ agentTypeNormal)
    (h : streq name (lit t.name) = true) :
    agentToolRoute r p name =
      if t.requiredCap = 0 ∨ p.ident.agentCapabilities &&& t.requiredCap ≠ 0 then .builtin t
      else .error (toolRespSet agentToolErrPermission (lit "permission denied")) := by
  obtain ⟨hcap, -, hchain⟩ := builtin_lists h
  unfold agentToolRoute toolPermitted
  rw [if_neg hp, hcap, hchain]
  by_cases hc : t.requiredCap = 0 ∨ p.ident.agentCapabilities &&& t.requiredCap ≠ 0
  · rw [if_pos hc, if_neg (by simpa [or_iff_not_imp_left] using hc)]
  · rw [if_neg hc, if_pos (by simpa using hc)]

/-- Behind the built-in names the group check decides. -/
theorem route_dynamic (hp : p.ident.agentType ≠ agentTypeNormal)
    (h : toolIsBuiltin name = false) :
    agentToolRoute r p name =
      if agentCheckToolPermission r p name then .dynamic
      else .error (toolRespSet agentToolErrPermission (lit "permission denied")) := by
  obtain ⟨hpol, hchain⟩ := not_builtin_lists h
  unfold agentToolRoute toolPermitted
  rw [if_neg hp, hpol, hchain]
  cases agentCheckToolPermission r p name <;> rfl

theorem findTool_none : findTool r name = none ↔
    ∀ t, (r.dynamicTools t).used = true → streq (r.dynamicTools t).name name = false := by
  unfold findTool
  rw [Table.first_none]
  simp

/-- The entry of a registered name is the only one. -/
theorem findTool_of_named (h : ToolsInv r.dynamicTools) (hu : (r.dynamicTools t).used = true)
    (hn : streq (r.dynamicTools t).name name = true) : findTool r name = some t := by
  refine Table.first_eq_of_unique (by simp [hu, hn]) fun j hj => ?_
  simp only [Bool.and_eq_true] at hj
  exact h.distinct j t hj.1 hu (streq_iff.2 ((streq_iff.1 hj.2).trans (streq_iff.1 hn).symm))

/-- A call of a registered tool that the group check lets through. -/
theorem dynamicCallAdmit_registered (hf : findTool r name = some t)
    (hc : (r.dynamicTools t).requiredCap = 0)
    (hg : agentSameGroupOrPublic p (r.dynamicTools t).ownerGroup (r.dynamicTools t).flags = true) :
    dynamicCallAdmit r p name params =
        .error (toolRespSet agentToolErrBusy (lit "tool request queue full")) ∨
      ∃ r' slot, dynamicCallAdmit r p name params = .ok (r', slot) ∧
        (r'.dynamicRequests slot).servicePid = (r.dynamicTools t).ownerPid := by
  unfold dynamicCallAdmit
  simp only [hf, hc, hg, ne_eq, not_true_eq_false, false_and, if_false]
  split
  · exact .inl rfl
  · refine .inr ⟨_, _, rfl, ?_⟩
    simp [Runtime.setRequest]

end

/-- **The tool registry**, in every state of every interleaving: names of entries in use are
non-empty, apart and not built in; owners have not exited and had `AGENT_CAP_REGISTER_TOOL` when
they registered; so a call of a built-in name reaches its handler under its capability, a
registered name its owner, any other name TOOL_NOT_FOUND; and a refused registration changes
nothing. -/
theorem tool_registry {s₀ s : DynState} {tr : List DynLabel} (h₀ : registryMachine.init s₀)
    (h : registryMachine.Path always s₀ tr s) :
    ToolRegistry s ∧
      ∀ t, (s.tools t).used = true → RegisteredBy s₀ tr s (s.tools t) := by
  have hi : DynInv s := registry_dynInv ⟨s₀, h₀, h⟩
  have ht : ToolsInv s.tools := registry_toolsInv ⟨s₀, h₀, h⟩
  refine ⟨⟨fun t hu => ⟨(ht.named t hu).1, (ht.named t hu).2.2⟩, ht.distinct, hi.replies.tool,
    fun p name t hp hn => route_builtin hp hn, fun p name params t hp hu hn => ?_,
    fun p name params hp hb hn => ?_, fun p name flags hr => ?_⟩, registered_path h h₀.1⟩
  · have hf := findTool_of_named ht hu hn
    have hb : toolIsBuiltin name = false := toolIsBuiltin_congr hn ▸ (ht.named t hu).2.2
    refine ⟨?_, dynamicCallAdmit_registered hf (ht.open_ t hu)⟩
    rw [route_dynamic hp hb]
    simp only [agentCheckToolPermission, hf]
  · have hf := findTool_none.2 hn
    refine ⟨?_, by simp only [dynamicCallAdmit, hf]⟩
    rw [route_dynamic hp hb]
    simp [agentCheckToolPermission, hf]
  · rcases sysToolRegister_cases s.runtime p name flags with ⟨-, e⟩ | ⟨slot, -, e⟩
    · exact e
    · exact absurd (by rw [e]) hr

theorem tool_registry_one :
    ToolRegistry ((registryMachine.run serviceAndCaller [.register 0 [116] 0]).getD
      serviceAndCaller) :=
  (tool_registry serviceAndCaller_init (path_getD (by decide))).1

end AgentOS
