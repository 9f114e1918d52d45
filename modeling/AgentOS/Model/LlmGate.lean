import AgentOS.Model.Param

/-!
# The gate of the planner

`user/planner_agent.c` up to the CodeLab repair: the arguments of `main`, `request_llm_plan` with the
line that `gets` reads from the serial port, and `llm_response_allows_codelab`.
-/

namespace AgentOS

def llmResponseMax : ℕ := 256

def llmRespBegin : List UInt8 := lit "@@AGENTOS_LLM_RESP"
def llmRespEnd : List UInt8 := lit "@@END"

/-- The loop of `contains` over the bytes of `s`. -/
def containsLoop (needle : List UInt8) : List UInt8 → Bool
  | [] => false
  | c :: s => needle.isPrefixOf (c :: s) || containsLoop needle s

/-- `contains`. -/
def contains (s needle : List UInt8) : Bool :=
  (cstr needle).isEmpty || containsLoop (cstr needle) (cstr s)

/-- The loop of `gets`, for a buffer with room for so many bytes and the NUL; `input` are the bytes
that `read` delivers before it fails. -/
def getsLoop : ℕ → List UInt8 → List UInt8
  | 0, _ => []
  | _, [] => []
  | room + 1, c :: input => if c = 10 ∨ c = 13 then [c] else c :: getsLoop room input

/-- `gets`. -/
def gets (input : List UInt8) (max : ℕ) : List UInt8 := getsLoop (max - 1) input

/-- `llm_response_allows_codelab`. -/
def llmResponseAllowsCodelab (line : List UInt8) : Bool :=
  if !contains line llmRespBegin || !contains line llmRespEnd then false
  else if contains line (lit "state=failed") || contains line (lit "action=abort") then false
  else
    contains line (lit "action=start_codelab") || contains line (lit "action=query_file") ||
      contains line (lit "state=done")

/-- What `request_llm_plan` returns, the summary of the model if it sets one, and the Context note
that it pushes, if any. -/
structure PlanRequest where
  ret : ℤ
  modelSummary : Option String
  note : Option (String × String)
  deriving DecidableEq, Repr

/-- `request_llm_plan`. -/
def requestLlmPlan (modelMode : ℤ) (input : List UInt8) : PlanRequest :=
  if modelMode = 1 then ⟨0, none, some ("llm_demo_plan", "action=start_codelab")⟩
  else if modelMode = 2 then
    if llmResponseAllowsCodelab (gets input llmResponseMax) then
      ⟨0, some "llm-api approved start_codelab", some ("llm_api_plan", "action=start_codelab")⟩
    else ⟨-1, some "llm-api rejected codelab", some ("llm_api_plan", "action=abort")⟩
  else ⟨0, none, none⟩

/-- `model_mode` in `main`; `arg` is `argv[1]`. -/
def modelModeOf (arg : Option (List UInt8)) : ℤ :=
  match arg with
  | none => 0
  | some a => if cstr a = lit "llm-demo" then 1 else if cstr a = lit "llm-api" then 2 else 0

/-- What `main` meets before the gate: the word that `agent_create` returns, whether the first wait
ends with a heartbeat, and the bytes on its standard input. -/
structure PlannerEnv where
  agentCreate : BitVec 64
  heartbeat : Bool
  input : List UInt8

/-- `main` gets past `request_llm_plan`: it reads the bug and spawns the agents of the repair. It
takes 0 for a failure of `agent_create`, which fails with -1. -/
def plannerGoesOn (arg : Option (List UInt8)) (e : PlannerEnv) : Bool :=
  e.agentCreate != 0 && e.heartbeat && decide (0 ≤ (requestLlmPlan (modelModeOf arg) e.input).ret)

end AgentOS
