import AgentOS.Proof.Registry

/-!
# What a private tool shows to other groups

* `Observed`, `observe`: what `tool_list`, `tool_schema` and `tool_call` answer.
* `ToolsBeside`: two tables that hold the same tools in the same order, but for one.
* `observe_congr`, `observe_named`: an observer of another group sees a difference exactly in
  the calls that name the tool, while it is there.
* `Uneventful`, `registryNext_beside`: a step of both runs.
* **`private_tool_hidden`**: two runs that differ in one registration.
-/

namespace AgentOS

open Machine

/-! ### Observations -/

/-- A call that looks for tools or uses one. -/
inductive ToolCall
  | list (len : ℕ)
  | schema (name : List UInt8)
  | call (name params : List UInt8)
  deriving DecidableEq, Repr

/-- The call is about the tool `t`. -/
def ToolCall.Names (t : List UInt8) : ToolCall → Prop
  | .list _ => False
  | .schema name | .call name _ => streq name t = true

/-- What a call gets: the text of the list, a schema if there is one, a response, or a request
that is on its way to a service. -/
inductive Observed
  | text (bytes : List UInt8)
  | schema (s : Option AgentToolSchema)
  | response (resp : AgentToolResponse)
  | sent (request : AgentDynamicRequestSlot)
  deriving DecidableEq, Repr

/-- `sys_tool_schema`: `copyinstr` refuses a name that does not fit. -/
def sysToolSchema (r : Runtime) (p : Proc) (name : List UInt8) : Option AgentToolSchema :=
  if strlen name < agentToolNameMax then agentToolSchemaGet r p name else none

/-- What a process observes of the runtime by one call. No handler of a built-in tool reads the
runtime; `handler` is what they answer. That `tool_list` finds no page, and that `tool_list` or
`tool_schema` cannot copy its answer out, is left out: neither depends on the tools. -/
def observe (handler : Proc → BuiltinTool → List UInt8 → AgentToolResponse) (r : Runtime)
    (p : Proc) : ToolCall → Observed
  | .list len => .text (agentCopyToolList r p len)
  | .schema name => .schema (sysToolSchema r p name)
  | .call name params =>
    match agentToolRoute r p name with
    | .error resp => .response resp
    | .builtin t => .response (handler p t params)
    | .dynamic =>
      match dynamicCallAdmit r p name params with
      | .error resp => .response resp
      | .ok (r', slot) => .sent (r'.dynamicRequests slot)

/-! ### Tables of tools -/

abbrev ToolTable := Fin agentDynamicToolMax → AgentDynamicTool

/-- The registered tools, in the order of their slots. -/
def usedTools (f : ToolTable) : List AgentDynamicTool := Table.entries f fun t => t.used

/-- The tool of this name. -/
def toolNamed (f : ToolTable) (name : List UInt8) : Option AgentDynamicTool :=
  (usedTools f).find? fun t => streq t.name name

def Runtime.withTable (r : Runtime) (f : ToolTable) : Runtime := { r with dynamicTools := f }

/-- The name of a tool that only its group may know. -/
structure PrivateTool (d : AgentDynamicTool) : Prop where
  priv : d.flags &&& agentToolFlagPublic = 0
  notBuiltin : toolIsBuiltin d.name = false
  fits : strlen d.name < agentToolNameMax

/-- **The table `f'` beside `f`**: it has the same tools in the same order, and perhaps `d`. -/
structure ToolsBeside (d : AgentDynamicTool) (f f' : ToolTable) : Prop where
  others : (usedTools f').filter (fun t => !streq t.name d.name) = usedTools f
  own : ∀ t ∈ usedTools f', streq t.name d.name = true → t = d

section

variable {r : Runtime} {f f' : ToolTable} {d : AgentDynamicTool} {p : Proc} {name params : List UInt8}

theorem findTool_map (r : Runtime) (name : List UInt8) :
    (findTool r name).map r.dynamicTools = toolNamed r.dynamicTools name := Table.first_map

theorem findTool_eq_none : findTool r name = none ↔ toolNamed r.dynamicTools name = none := by
  rw [← findTool_map, Option.map_eq_none_iff]

theorem toolNamed_congr {a b : List UInt8} (h : streq a b = true) : toolNamed f a = toolNamed f b := by
  unfold toolNamed
  congr 1
  funext t
  rw [streq_comm t.name a, streq_congr h, streq_comm]

/-- The name that a registration stores compares as the one given. -/
theorem streq_newTool (q : Proc) (a name : List UInt8) (flags : BitVec 32) :
    streq a (newTool q name flags).name = streq a name := by
  simp only [newTool, streq, cstr_idem]

theorem PrivateTool.denied (hd : PrivateTool d) (hg : p.ident.agentGroup ≠ d.ownerGroup) :
    agentSameGroupOrPublic p d.ownerGroup d.flags = false := by
  unfold agentSameGroupOrPublic
  simp [hd.priv, hg]

namespace ToolsBeside

/-- Where the tool is not, the tables list the same. -/
theorem gone (hb : ToolsBeside d f f') (h : toolNamed f' d.name = none) : usedTools f' = usedTools f := by
  rw [← hb.others, List.filter_eq_self.2]
  intro t ht
  have hno := List.find?_eq_none.1 h t ht
  simpa using hno

/-- A lookup of another name finds the same, and so does every lookup when the tool is gone. -/
theorem named_eq (hb : ToolsBeside d f f')
    (h : streq name d.name = false ∨ toolNamed f' d.name = none) :
    toolNamed f' name = toolNamed f name := by
  unfold toolNamed
  rcases h with hn | hn
  · rw [← hb.others, List.find?_filter]
    congr 1
    funext t
    cases ht : streq t.name name with
    | false => simp
    | true =>
      have hother : streq t.name d.name = false := (streq_congr ht _).trans hn
      simp [hother]
  · rw [hb.gone hn]

/-- In the one table its name is free. -/
theorem named_none (hb : ToolsBeside d f f') (hn : streq name d.name = true) :
    toolNamed f name = none := by
  refine List.find?_eq_none.2 fun t ht hname => ?_
  rw [← hb.others] at ht
  have hother := (List.mem_filter.1 ht).2
  rw [(streq_congr hname d.name).trans hn] at hother
  cases hother

/-- In the other nothing else has it. -/
theorem named_own (hb : ToolsBeside d f f') (hn : streq name d.name = true) {t : AgentDynamicTool}
    (h : toolNamed f' name = some t) : t = d := by
  have hname := List.find?_some h
  exact hb.own t (List.mem_of_find?_eq_some h) ((streq_congr hname d.name).trans hn)

/-- A tool that is not shown is not missed in the list. -/
theorem list_eq (hb : ToolsBeside d f f') (hd : agentSameGroupOrPublic p d.ownerGroup d.flags = false)
    (buf : List UInt8) :
    (usedTools f').foldl (listTool p) buf = (usedTools f).foldl (listTool p) buf := by
  rw [← hb.others, List.foldl_filter]
  refine List.foldl_ext _ _ _ fun buf t ht => ?_
  by_cases hn : streq t.name d.name = true
  · rw [hb.own t ht hn]
    unfold listTool
    simp [hd]
  · simp [hn]

end ToolsBeside

/-! ### What reads the table -/

theorem agentCopyToolList_eq (r : Runtime) (p : Proc) (len : ℕ) :
    agentCopyToolList r p len =
      ((usedTools r.dynamicTools).foldl (listTool p) (resultPuts [] builtinToolList)).take len := by
  unfold agentCopyToolList usedTools Table.entries
  rw [List.foldl_filter]
  congr 2
  funext buf t
  unfold listTool
  cases t.used <;> simp

/-- Lookups in two tables that agree on the name. -/
theorem lookup_cases (h : toolNamed f' name = toolNamed r.dynamicTools name) :
    (findTool (r.withTable f') name = none ∧ findTool r name = none) ∨
      ∃ t' t, findTool (r.withTable f') name = some t' ∧ findTool r name = some t ∧
        (r.withTable f').dynamicTools t' = r.dynamicTools t := by
  have hmap : (findTool (r.withTable f') name).map (r.withTable f').dynamicTools =
      (findTool r name).map r.dynamicTools := by
    rw [findTool_map, findTool_map]
    exact h
  cases ht : findTool r name with
  | none =>
    rw [ht] at hmap
    exact .inl ⟨Option.map_eq_none_iff.1 hmap, rfl⟩
  | some t =>
    rw [ht] at hmap
    obtain ⟨t', ht', he⟩ := Option.map_eq_some_iff.1 hmap
    exact .inr ⟨t', t, ht', rfl, he⟩

theorem checkPermission_congr (h : toolNamed f' name = toolNamed r.dynamicTools name) :
    agentCheckToolPermission (r.withTable f') p name = agentCheckToolPermission r p name := by
  unfold agentCheckToolPermission
  rcases lookup_cases h with ⟨e', e⟩ | ⟨t', t, e', e, ht⟩
  · rw [e', e]
  · rw [e', e]
    simp only [ht]

theorem route_congr (h : toolNamed f' name = toolNamed r.dynamicTools name) :
    agentToolRoute (r.withTable f') p name = agentToolRoute r p name := by
  unfold agentToolRoute toolPermitted
  rw [checkPermission_congr h]

/-- The runtime of an accepted call has its table as before. -/
theorem admit_congr (h : toolNamed f' name = toolNamed r.dynamicTools name) :
    dynamicCallAdmit (r.withTable f') p name params =
      (dynamicCallAdmit r p name params).map fun x => (x.1.withTable f', x.2) := by
  unfold dynamicCallAdmit
  rcases lookup_cases h with ⟨e', e⟩ | ⟨t', t, e', e, ht⟩
  · rw [e', e]
    rfl
  · have hreq : (r.withTable f').dynamicRequests = r.dynamicRequests := rfl
    rw [e', e]
    simp only [ht, hreq]
    split
    · rfl
    split
    · rfl
    split <;> rfl

theorem schema_congr (h : toolNamed f' name = toolNamed r.dynamicTools name) :
    sysToolSchema (r.withTable f') p name = sysToolSchema r p name := by
  unfold sysToolSchema agentToolSchemaGet
  rcases lookup_cases h with ⟨e', e⟩ | ⟨t', t, e', e, ht⟩
  · rw [e', e]
    simp only [Option.map_none]
  · rw [e', e]
    simp only [Option.map_some, ht]

theorem toolOwner_congr (h : toolNamed f' name = toolNamed r.dynamicTools name) :
    toolOwner (r.withTable f') name = toolOwner r name := by
  unfold toolOwner
  rcases lookup_cases h with ⟨e', e⟩ | ⟨t', t, e', e, ht⟩
  · rw [e', e]
  · rw [e', e]
    simp only [ht]

variable (handler : Proc → BuiltinTool → List UInt8 → AgentToolResponse)

/-- Calls whose names the tables agree on answer the same. -/
theorem observe_congr (hb : ToolsBeside d r.dynamicTools f')
    (hd : agentSameGroupOrPublic p d.ownerGroup d.flags = false) {c : ToolCall}
    (hc : ∀ name, c.Names name → toolNamed f' name = toolNamed r.dynamicTools name) :
    observe handler (r.withTable f') p c = observe handler r p c := by
  have hself : ∀ name, streq name name = true := fun _ => streq_iff.2 rfl
  cases c with
  | list len =>
    refine congrArg Observed.text ?_
    rw [agentCopyToolList_eq, agentCopyToolList_eq]
    exact congrArg (List.take len) (hb.list_eq hd _)
  | schema name => exact congrArg Observed.schema (schema_congr (hc name (hself name)))
  | call name params =>
    have h := hc name (hself name)
    simp only [observe, route_congr h, admit_congr h]
    cases agentToolRoute r p name with
    | error resp => rfl
    | builtin t => rfl
    | dynamic =>
      cases dynamicCallAdmit r p name params with
      | error resp => rfl
      | ok x => rfl

/-- Calls that name the tool answer differently. -/
theorem observe_named (hb : ToolsBeside d r.dynamicTools f') (hd : PrivateTool d)
    (hp : p.ident.agentType ≠ agentTypeNormal) (hg : p.ident.agentGroup ≠ d.ownerGroup)
    {c : ToolCall} (hc : c.Names d.name) (hthere : (findTool (r.withTable f') d.name).isSome = true) :
    observe handler (r.withTable f') p c ≠ observe handler r p c := by
  -- one run finds the tool under the name, the other finds nothing
  have hfound : ∀ {name}, streq name d.name = true → findTool r name = none ∧
      ∃ t, findTool (r.withTable f') name = some t ∧ (r.withTable f').dynamicTools t = d := by
    intro name hn
    refine ⟨findTool_eq_none.2 (hb.named_none hn), ?_⟩
    have hsome : toolNamed f' name ≠ none := by
      rw [toolNamed_congr hn]
      exact fun h => Option.isSome_iff_ne_none.1 hthere (findTool_eq_none.2 h)
    obtain ⟨e, he⟩ := Option.ne_none_iff_exists'.1 hsome
    obtain rfl := hb.named_own hn he
    have hmap : (findTool (r.withTable f') name).map (r.withTable f').dynamicTools = some e :=
      (findTool_map _ _).trans he
    exact Option.map_eq_some_iff.1 hmap
  cases c with
  | list len => exact hc.elim
  | schema name =>
    -- `tool_schema` has no group check
    obtain ⟨hgone, t, ht, -⟩ := hfound hc
    have hb : toolIsBuiltin name = false := (toolIsBuiltin_congr hc).trans hd.notBuiltin
    have hfits : strlen name < agentToolNameMax := by
      have hlen : strlen name = strlen d.name := by simp only [strlen, streq_iff.1 hc]
      rw [hlen]
      exact hd.fits
    simp only [observe, sysToolSchema, if_pos hfits, agentToolSchemaGet, (not_builtin_lists hb).1,
      ht, hgone, Option.map_some, Option.map_none]
    exact fun h => Option.some_ne_none _ (Observed.schema.inj h)
  | call name params =>
    -- "permission denied" against "tool not found"
    obtain ⟨hgone, t, ht, htool⟩ := hfound hc
    have hb : toolIsBuiltin name = false := (toolIsBuiltin_congr hc).trans hd.notBuiltin
    have hroute : agentToolRoute (r.withTable f') p name =
        .error (toolRespSet agentToolErrPermission (lit "permission denied")) := by
      rw [route_dynamic hp hb]
      simp [agentCheckToolPermission, ht, htool, hd.denied hg]
    have hroute' : agentToolRoute r p name = .dynamic := by
      rw [route_dynamic hp hb]
      simp [agentCheckToolPermission, hgone]
    have hadmit : dynamicCallAdmit r p name params =
        .error (toolRespSet agentToolErrToolNotFound (lit "tool not found")) := by
      simp only [dynamicCallAdmit, hgone]
    simp only [observe, hroute, hroute', hadmit]
    intro h
    have hstatus := congrArg AgentToolResponse.status (Observed.response.inj h)
    exact absurd hstatus (by decide)

end

/-! ### What changes the table -/

section

variable {f f' : ToolTable} {d u : AgentDynamicTool} {slot slot' : Fin agentDynamicToolMax}

/-- A registration adds its tool and no other. -/
theorem mem_usedTools_update (h : Table.first f (fun t => !t.used) = some slot) (hu : u.used = true)
    {t : AgentDynamicTool} :
    t ∈ usedTools (Function.update f slot u) ↔ t = u ∨ t ∈ usedTools f := by
  unfold usedTools
  rw [Table.entries_update h hu, Table.entries_of_first h]
  simp only [List.mem_append, List.mem_cons, or_left_comm]

/-- The tool is registered in one of two equal tables. -/
theorem beside_new (h : Table.first f (fun t => !t.used) = some slot) (hu : d.used = true)
    (hfresh : toolNamed f d.name = none) : ToolsBeside d f (Function.update f slot d) := by
  have hself : streq d.name d.name = true := streq_iff.2 rfl
  have hother : ∀ t ∈ usedTools f, streq t.name d.name = false := fun t ht => by
    simpa using List.find?_eq_none.1 hfresh t ht
  have hold := Table.entries_of_first h
  have hnew := Table.entries_update h hu
  refine ⟨?_, fun t ht hname => ?_⟩
  · have hkeep : (usedTools f).filter (fun t => !streq t.name d.name) = usedTools f := by
      rw [List.filter_eq_self]
      intro t ht
      rw [hother t ht]
      rfl
    rw [← hkeep]
    unfold usedTools
    rw [hnew, hold, List.filter_append, List.filter_append, List.filter_cons, if_neg (by simp [hself])]
  · rcases (mem_usedTools_update h hu).1 ht with rfl | hmem
    · rfl
    · rw [hother t hmem] at hname
      cases hname

/-- Another tool is registered in both, behind the same tools. -/
theorem ToolsBeside.add (hb : ToolsBeside d f f') (h : Table.first f (fun t => !t.used) = some slot)
    (h' : Table.first f' (fun t => !t.used) = some slot') (hu : u.used = true)
    (hn : streq u.name d.name = false)
    (horder : (Table.before f' slot').filter (fun t => !streq t.name d.name) = Table.before f slot) :
    ToolsBeside d (Function.update f slot u) (Function.update f' slot' u) := by
  have hold := Table.entries_of_first h
  have hold' := Table.entries_of_first h'
  have hothers := hb.others
  unfold usedTools at hothers
  rw [hold, hold', List.filter_append, horder] at hothers
  have hrest := List.append_cancel_left hothers
  refine ⟨?_, fun t ht hname => ?_⟩
  · unfold usedTools
    rw [Table.entries_update h hu, Table.entries_update h' hu, List.filter_append, horder,
      List.filter_cons, if_pos (by simp [hn]), hrest]
  · rcases (mem_usedTools_update h' hu).1 ht with rfl | hmem
    · rw [hn] at hname
      cases hname
    · exact hb.own t hmem hname

/-- A process takes its tools with it. -/
theorem ToolsBeside.sweep (hb : ToolsBeside d f f') (q : AgentDynamicTool → Bool) :
    ToolsBeside d (Table.sweep f q AgentDynamicTool.zero) (Table.sweep f' q AgentDynamicTool.zero) := by
  have hzero : AgentDynamicTool.zero.used = false := rfl
  refine ⟨?_, fun t ht => ?_⟩
  · have hothers := hb.others
    unfold usedTools at hothers ⊢
    rw [Table.entries_sweep hzero, Table.entries_sweep hzero, ← hothers, List.filter_comm]
  · unfold usedTools at ht
    rw [Table.entries_sweep hzero] at ht
    exact hb.own t (List.mem_filter.1 ht).1

end

/-! ### Two runs -/

/-- Two runs beside each other: the second takes the steps of the first. -/
def bothMachine : Machine (DynState × DynState) DynLabel where
  init s := registryMachine.init s.1 ∧ registryMachine.init s.2
  next s l := (registryNext s.1 l).map fun t => (t, (registryNext s.2 l).getD s.2)

/-- A step that leaves the tool `t` of the second run alone: nobody calls it while it is there,
nobody else registers its name, and another tool comes behind the same tools in both runs. -/
def Uneventful (t : List UInt8) (s : DynState × DynState) : DynLabel → Prop
  | .register i name flags => streq name t = false ∧
      ∀ slot, Registers s.1.runtime (s.1.proc i) name flags slot →
        ∃ slot', Registers s.2.runtime (s.2.proc i) name flags slot' ∧
          (Table.before s.2.tools slot').filter (fun d => !streq d.name t) =
            Table.before s.1.tools slot
  | .call _ name _ => streq name t = false ∨ findTool s.2.runtime t = none
  | .enter i => ∀ name params, s.1.points i = .calling name params →
      streq name t = false ∨ findTool s.2.runtime t = none
  | _ => True

/-- The state with another table of tools. -/
def DynState.withTable (s : DynState) (f : ToolTable) : DynState :=
  s.setRuntime (s.runtime.withTable f)

section

variable {r : Runtime} {f : ToolTable} {d : AgentDynamicTool} {p : Proc} {name params : List UInt8}
  {flags : BitVec 32}

/-- **A registration in both runs.** -/
theorem register_beside {s : DynState} {i : Slot} (hb : ToolsBeside d s.tools f)
    (hq : Uneventful d.name (s, s.withTable f) (.register i name flags)) :
    ∃ g, (sysToolRegister (s.runtime.withTable f) (s.proc i) name flags).1 =
        (sysToolRegister s.runtime (s.proc i) name flags).1.withTable g ∧
      ToolsBeside d (sysToolRegister s.runtime (s.proc i) name flags).1.dynamicTools g := by
  obtain ⟨hn, hslot⟩ := hq
  rcases sysToolRegister_cases s.runtime (s.proc i) name flags with ⟨hne, e⟩ | ⟨slot, hr, e⟩
  · -- refused in one run, refused in the other
    refine ⟨f, ?_, by rw [e]; exact hb⟩
    rw [e]
    rcases sysToolRegister_cases (s.runtime.withTable f) (s.proc i) name flags with
      ⟨-, e'⟩ | ⟨slot', hr', -⟩
    · exact e'
    · exfalso
      have hfresh : findTool s.runtime name = none := by
        rw [findTool_eq_none, ← hb.named_eq (.inl hn)]
        exact findTool_eq_none.1 hr'.fresh
      cases hf : Table.first s.tools fun t => !t.used with
      | none =>
        have hfull : (usedTools s.tools).length = agentDynamicToolMax := Table.length_entries hf
        have hroom : (usedTools f).length < agentDynamicToolMax := Table.length_entries_lt hr'.free
        have hle := List.length_filter_le (fun t => !streq t.name d.name) (usedTools f)
        rw [hb.others, hfull] at hle
        omega
      | some slot =>
        have hr : Registers s.runtime (s.proc i) name flags slot :=
          ⟨hr'.agent, hr'.cap, hr'.fits, hr'.nonempty, hr'.notBuiltin, hr'.flags, hfresh, hf⟩
        rw [sysToolRegister_ok hr] at hne
        exact hne rfl
  · obtain ⟨slot', hr', horder⟩ := hslot slot hr
    have e' := sysToolRegister_ok hr'
    refine ⟨Function.update f slot' (newTool (s.proc i) name flags), ?_, ?_⟩
    · rw [e]
      exact congrArg Prod.fst e'
    · rw [e]
      have hname : streq (newTool (s.proc i) name flags).name d.name = false := by
        rw [streq_comm, streq_newTool, streq_comm]
        exact hn
      exact hb.add hr.slot hr'.slot rfl hname horder

theorem dynamicCallRound_withTable (killed : Bool) (slot : Fin agentDynamicRequestMax) (id : ℤ) :
    dynamicCallRound (r.withTable f) killed slot id =
      ((dynamicCallRound r killed slot id).1.withTable f, (dynamicCallRound r killed slot id).2) := by
  have hreq : (r.withTable f).dynamicRequests = r.dynamicRequests := rfl
  unfold dynamicCallRound
  simp only [hreq]
  split
  · rfl
  split
  · rfl
  split <;> rfl

theorem agentToolRecvRound_withTable (pid : ℕ) (killed : Bool) :
    agentToolRecvRound (r.withTable f) pid killed =
      ((agentToolRecvRound r pid killed).1.withTable f, (agentToolRecvRound r pid killed).2) := by
  have hreq : (r.withTable f).dynamicRequests = r.dynamicRequests := rfl
  unfold agentToolRecvRound
  simp only [hreq]
  split
  · rfl
  split <;> rfl

theorem agentToolReply_withTable (id status : ℤ) (result : List UInt8) :
    agentToolReply (r.withTable f) p id result status =
      ((agentToolReply r p id result status).1.withTable f,
        (agentToolReply r p id result status).2) := by
  have hreq : (r.withTable f).dynamicRequests = r.dynamicRequests := rfl
  unfold agentToolReply
  simp only [hreq]
  split
  · rfl
  split <;> rfl

end

section

variable {s t : DynState} {f : ToolTable} {d : AgentDynamicTool} {i : Slot} {l : DynLabel}

theorem withTable_callRound (slot : Fin agentDynamicRequestMax) (id : ℤ) :
    (s.withTable f).callRound i slot id = (s.callRound i slot id).withTable f := by
  have hp : (s.withTable f).proc i = s.proc i := rfl
  have hr : (s.withTable f).runtime = s.runtime.withTable f := rfl
  unfold DynState.callRound
  simp only [hp, hr, dynamicCallRound_withTable]
  split <;> rfl

theorem withTable_recvRound : (s.withTable f).recvRound i = (s.recvRound i).withTable f := by
  have hp : (s.withTable f).proc i = s.proc i := rfl
  have hr : (s.withTable f).runtime = s.runtime.withTable f := rfl
  unfold DynState.recvRound
  simp only [hp, hr, agentToolRecvRound_withTable]
  split <;> rfl

/-- What a call looks up, both runs find. -/
theorem ToolsBeside.looks (hb : ToolsBeside d s.tools f) {name : List UInt8}
    (h : streq name d.name = false ∨ findTool (s.withTable f).runtime d.name = none) :
    toolNamed f name = toolNamed s.runtime.dynamicTools name := by
  refine hb.named_eq (h.imp_right fun hnone => ?_)
  exact findTool_eq_none.1 hnone

/-- **One step, without and with the tool**, that leaves the tables alone. -/
theorem registryNext_withTable (hb : ToolsBeside d s.tools f) (hq : Uneventful d.name (s, s.withTable f) l)
    (hreg : ∀ i name flags, l ≠ .register i name flags) (hexit : ∀ i, l ≠ .exit i)
    (h : registryNext s l = some t) :
    registryNext (s.withTable f) l = some (t.withTable f) := by
  have hp : ∀ i, (s.withTable f).proc i = s.proc i := fun _ => rfl
  have hr : (s.withTable f).runtime = s.runtime.withTable f := rfl
  have hpts : (s.withTable f).points = s.points := rfl
  cases l with
  | register i name flags => exact absurd rfl (hreg i name flags)
  | call i name params =>
    simp only [registryNext, DynState.next] at h ⊢
    split at h <;> [skip; cases h]
    rename_i hi
    rw [if_pos (by rw [hpts]; exact hi), hp, hr, checkPermission_congr (hb.looks hq)]
    split at h <;> (rename_i hc; obtain rfl := Option.some.inj h)
    · rw [if_pos hc]
    · rw [if_neg hc]
      rfl
  | enter i =>
    simp only [registryNext, DynState.next, hpts] at h ⊢
    cases hi : s.points i with
    | calling name params =>
      have hlook := hb.looks (hq name params hi)
      rw [hi] at h
      simp only [hp, hr, admit_congr hlook] at h ⊢
      cases hadm : dynamicCallAdmit s.runtime (s.proc i) name params with
      | error resp =>
        rw [hadm] at h
        obtain rfl := Option.some.inj h
        rfl
      | ok x =>
        rw [hadm] at h
        obtain rfl := Option.some.inj h
        have henq : (s.withTable f).enqueue i name (x.1.withTable f) x.2 =
            (s.enqueue i name x.1 x.2).withTable f := by
          unfold DynState.enqueue
          rw [hr, toolOwner_congr hlook]
          rfl
        show some (((s.withTable f).enqueue i name (x.1.withTable f) x.2).callRound i x.2 _) = _
        rw [henq, withTable_callRound]
        rfl
    | _ => rw [hi] at h; cases h
  | resumeCall i =>
    simp only [registryNext, DynState.next, hpts] at h ⊢
    split at h <;> [skip; cases h]
    obtain rfl := Option.some.inj h
    rw [withTable_callRound]
  | recv i =>
    simp only [registryNext, DynState.next, hpts, hp] at h ⊢
    split at h <;> [skip; cases h]
    rename_i hi
    rw [if_pos hi]
    split at h <;> (rename_i hc; obtain rfl := Option.some.inj h)
    · rw [if_pos hc]
    · rw [if_neg hc, withTable_recvRound]
  | resumeRecv i =>
    simp only [registryNext, DynState.next, hpts] at h ⊢
    split at h <;> [skip; cases h]
    rename_i hi
    obtain rfl := Option.some.inj h
    rw [if_pos hi, withTable_recvRound]
  | reply i id result status =>
    simp only [registryNext, DynState.next, hpts, hp, hr, agentToolReply_withTable] at h ⊢
    split at h <;> [skip; cases h]
    rename_i hi
    rw [if_pos hi]
    split at h <;> (rename_i hc; obtain rfl := Option.some.inj h)
    · rw [if_pos hc]
      rfl
    · rw [if_neg hc]
  | kill i =>
    obtain rfl := Option.some.inj h
    rfl
  | exit i => exact absurd rfl (hexit i)
  | spawn i p =>
    simp only [registryNext, DynState.next, hpts] at h ⊢
    split at h <;> [skip; cases h]
    rename_i hi
    obtain rfl := Option.some.inj h
    rw [if_pos hi]
    rfl
  | other i p =>
    obtain rfl := Option.some.inj h
    rfl

/-- **One step of both runs.** -/
theorem registryNext_beside (hb : ToolsBeside d s.tools f) (hq : Uneventful d.name (s, s.withTable f) l)
    (h : registryNext s l = some t) :
    ∃ g, registryNext (s.withTable f) l = some (t.withTable g) ∧ ToolsBeside d t.tools g := by
  have hpts : (s.withTable f).points = s.points := rfl
  by_cases hreg : ∃ i name flags, l = .register i name flags
  · obtain ⟨i, name, flags, rfl⟩ := hreg
    obtain ⟨g, hg, hbg⟩ := register_beside hb hq
    simp only [registryNext, hpts] at h ⊢
    split at h <;> [skip; cases h]
    rename_i hi
    obtain rfl := Option.some.inj h
    refine ⟨g, ?_, hbg⟩
    rw [if_pos hi]
    exact congrArg (fun r => some (s.setRuntime r)) hg
  by_cases hexit : ∃ i, l = .exit i
  · obtain ⟨i, rfl⟩ := hexit
    simp only [registryNext, DynState.next, hpts] at h ⊢
    split at h <;> [skip; cases h]
    rename_i hi
    obtain rfl := Option.some.inj h
    refine ⟨_, ?_, hb.sweep fun t => t.used && t.ownerPid == (s.proc i).pid⟩
    rw [if_pos hi]
    rfl
  · have hreg' : ∀ i name flags, l ≠ .register i name flags :=
      fun i name flags hl => hreg ⟨i, name, flags, hl⟩
    have hexit' : ∀ i, l ≠ .exit i := fun i hl => hexit ⟨i, hl⟩
    refine ⟨f, registryNext_withTable hb hq hreg' hexit' h, ?_⟩
    rcases registryNext_tools h with e | ⟨i, name, flags, -, hl, -⟩ | ⟨i, hl, -⟩
    · rw [e]
      exact hb
    · exact absurd hl (hreg' i name flags)
    · exact absurd hl (hexit' i)

/-- **Run**: the two runs stay beside each other. -/
theorem beside_path {x y : DynState × DynState} {tr : List DynLabel}
    (h : bothMachine.Path (Uneventful d.name) x tr y) (hx : x.2 = x.1.withTable f)
    (hb : ToolsBeside d x.1.tools f) :
    (∃ g, y.2 = y.1.withTable g ∧ ToolsBeside d y.1.tools g) ∧
      registryMachine.Path always x.1 tr y.1 ∧ registryMachine.Path always x.2 tr y.2 := by
  induction h with
  | nil => exact ⟨⟨f, hx, hb⟩, Path.nil _, Path.nil _⟩
  | @snoc y z tr l hp hq hn ih =>
    obtain ⟨⟨g, hy, hbg⟩, hp₁, hp₂⟩ := ih
    obtain ⟨t, ht, rfl⟩ := Option.map_eq_some_iff.1 hn
    have hyy : y = (y.1, y.1.withTable g) := Prod.ext rfl hy
    rw [hyy] at hq
    obtain ⟨g', ht', hbg'⟩ := registryNext_beside hbg hq ht
    rw [← hy] at ht'
    have hsecond : (registryNext y.2 l).getD y.2 = t.withTable g' := by
      rw [ht']
      rfl
    refine ⟨⟨g', hsecond, hbg'⟩, hp₁.snoc trivial ht, hp₂.snoc trivial ?_⟩
    dsimp only
    rw [hsecond]
    exact ht'

end

theorem names_newTool (p : Proc) (name : List UInt8) (flags : BitVec 32) (c : ToolCall) :
    c.Names (newTool p name flags).name ↔ c.Names name := by
  cases c with
  | list len => exact Iff.rfl
  | schema n => simp only [ToolCall.Names, streq_newTool]
  | call n params => simp only [ToolCall.Names, streq_newTool]

theorem uneventful_newTool (p : Proc) (name : List UInt8) (flags : BitVec 32) :
    Uneventful (newTool p name flags).name = Uneventful name := by
  have hfind : ∀ r, findTool r (newTool p name flags).name = findTool r name := by
    intro r
    unfold findTool
    simp only [streq_newTool]
  funext s l
  cases l <;> simp only [Uneventful, streq_newTool, hfind]

/-- **Private tools and other groups.** Process `i` registers a tool that is not public in the second
run, and not in the first; both go on alike, leaving the tool alone. Then an Agent of another group
observes the same in both, from `tool_list`, `tool_schema` and `tool_call`, exactly in the calls that
do not name the tool while it is registered. -/
theorem private_tool_hidden {s s' t t' : DynState} {i : Slot} {name : List UInt8} {flags : BitVec 32}
    {slot : Fin agentDynamicToolMax} {post : List DynLabel}
    (hs : registryMachine.next s (.register i name flags) = some s')
    (hr : Registers s.runtime (s.proc i) name flags slot)
    (hpriv : flags &&& agentToolFlagPublic = 0)
    (ht : bothMachine.Path (Uneventful name) (s, s') post (t, t')) :
    registryMachine.Path always s post t ∧
      registryMachine.Path always s (.register i name flags :: post) t' ∧
      ∀ handler p c, p.ident.agentType ≠ agentTypeNormal →
        p.ident.agentGroup ≠ (s.proc i).ident.agentGroup →
        (observe handler t'.runtime p c = observe handler t.runtime p c ↔
          ¬ (c.Names name ∧ (findTool t'.runtime name).isSome = true)) := by
  set d := newTool (s.proc i) name flags with hd
  have hpt : PrivateTool d := by
    refine ⟨hpriv, (toolIsBuiltin_congr (streq_iff.2 (cstr_idem name))).trans hr.notBuiltin, ?_⟩
    simp only [hd, newTool, strlen, cstr_idem]
    exact hr.fits
  have hself : streq name d.name = true := streq_iff.2 (cstr_idem name).symm
  have hfresh : toolNamed s.tools d.name = none := by
    rw [← toolNamed_congr hself]
    exact findTool_eq_none.1 hr.fresh
  have hs' : s' = s.withTable (Function.update s.tools slot d) := by
    have hstep := hs
    simp only [registryMachine, registryNext] at hstep
    split at hstep <;> [skip; cases hstep]
    rw [sysToolRegister_ok hr] at hstep
    exact (Option.some.inj hstep).symm
  rw [← uneventful_newTool (s.proc i) name flags] at ht
  obtain ⟨⟨g, hg, hb⟩, hp, hp'⟩ := beside_path ht hs' (beside_new hr.slot rfl hfresh)
  refine ⟨hp, Path.cons trivial hs hp', fun handler p c hagent hgroup => ?_⟩
  have hrun : t'.runtime = t.runtime.withTable g := congrArg DynState.runtime hg
  have hname : (findTool t'.runtime name).isSome = (findTool t'.runtime d.name).isSome := by
    have hcongr := toolNamed_congr (f := t'.runtime.dynamicTools) hself
    rw [← findTool_map, ← findTool_map] at hcongr
    rw [← Option.isSome_map, hcongr, Option.isSome_map]
  rw [← names_newTool (s.proc i) name flags c, hname, hrun]
  constructor
  · rintro he ⟨hc, hthere⟩
    exact observe_named handler hb hpt hagent hgroup hc hthere he
  · intro hc
    refine observe_congr handler hb (hpt.denied hgroup) fun n hn => ?_
    by_cases hown : streq n d.name = true
    · have hcalls : c.Names d.name := by
        cases c with
        | list len => exact hn
        | schema m => exact (streq_congr hn _).trans hown
        | call m params => exact (streq_congr hn _).trans hown
      refine hb.named_eq (.inr ?_)
      by_contra hthere
      refine hc ⟨hcalls, Option.isSome_iff_ne_none.2 fun hnone => hthere ?_⟩
      exact findTool_eq_none.1 hnone
    · exact hb.named_eq (.inl (Bool.not_eq_true _ ▸ hown))

/-- A service with pid 1 in group 1 and an Agent with pid 2 in group 2. -/
def serviceAndStranger : DynState :=
  { serviceAndCaller with
    kernel := serviceAndCaller.kernel.setProc 1
      { serviceAndCaller.proc 1 with ident.agentGroup := 2 } }

/-- Both runs, after the service has registered `t` in the second. -/
def strangerPair : DynState × DynState :=
  (serviceAndStranger,
    (registryMachine.next serviceAndStranger (.register 0 [116] 0)).getD serviceAndStranger)

/-- It registers `u` in both, which gets another slot in each. -/
theorem strangerPair_uneventful : Uneventful [116] strangerPair (.register 0 [117] 0) := by
  refine ⟨by decide, fun slot hr => ?_⟩
  have hslot : Table.first strangerPair.1.runtime.dynamicTools (fun t => !t.used) = some 0 := by
    decide
  obtain rfl := Option.some.inj (hr.slot.symm.trans hslot)
  exact ⟨1, ⟨by decide, by decide, by decide, by decide, by decide, by decide, by decide, by decide⟩,
    by decide⟩

/-- The two runs after that, and after a kill of the stranger. -/
def strangerEnd : DynState × DynState :=
  (bothMachine.run strangerPair [.register 0 [117] 0, .kill 1]).getD strangerPair

theorem private_tool_hidden_stranger :
    registryMachine.Path always serviceAndStranger [.register 0 [117] 0, .kill 1] strangerEnd.1 ∧
      registryMachine.Path always serviceAndStranger
        [.register 0 [116] 0, .register 0 [117] 0, .kill 1] strangerEnd.2 ∧
      ∀ handler p c, p.ident.agentType ≠ agentTypeNormal → p.ident.agentGroup ≠ 1 →
        (observe handler strangerEnd.2.runtime p c = observe handler strangerEnd.1.runtime p c ↔
          ¬ (c.Names [116] ∧ (findTool strangerEnd.2.runtime [116]).isSome = true)) := by
  have hr : Registers serviceAndStranger.runtime (serviceAndStranger.proc 0) [116] 0 0 :=
    ⟨by decide, by decide, by decide, by decide, by decide, by decide, by decide, by decide⟩
  have hpath : bothMachine.Path (Uneventful [116]) strangerPair [.register 0 [117] 0, .kill 1]
      strangerEnd :=
    Path.cons strangerPair_uneventful (next_getD (d := strangerPair) (by decide))
      (Path.single trivial (next_getD (d := strangerPair) (by decide)))
  exact private_tool_hidden (next_getD (by decide)) hr (by decide) hpath

/-- The group check of `tool_schema` is missing, and `tool_call` answers PERMISSION instead of
TOOL_NOT_FOUND: an Agent of group 2 learns of the tool of group 1, and who owns it. -/
theorem private_tool_leaks :
    registryMachine.init serviceAndStranger ∧
      ∃ t', registryMachine.Path always serviceAndStranger [.register 0 [116] 0] t' ∧
        (serviceAndStranger.proc 1).ident.agentGroup ≠ (serviceAndStranger.proc 0).ident.agentGroup ∧
        sysToolSchema t'.runtime (serviceAndStranger.proc 1) [116] =
          some ⟨[116], lit "dynamic params", 0, lit "dynamic result", true, 1, 1, 0⟩ ∧
        sysToolSchema serviceAndStranger.runtime (serviceAndStranger.proc 1) [116] = none ∧
        ∀ handler,
          observe handler t'.runtime (serviceAndStranger.proc 1) (.call [116] []) =
              .response (toolRespSet agentToolErrPermission (lit "permission denied")) ∧
            observe handler serviceAndStranger.runtime (serviceAndStranger.proc 1) (.call [116] []) =
              .response (toolRespSet agentToolErrToolNotFound (lit "tool not found")) := by
  refine ⟨?_, _, Path.single trivial (next_getD (d := serviceAndStranger) (by decide)), by decide,
    by decide, by decide, fun handler => ⟨rfl, rfl⟩⟩
  refine ⟨rfl, fun i => ?_, by decide, by decide, rfl, rfl, rfl, rfl, rfl⟩
  exact serviceAndCaller_init.2.1 i

end AgentOS
