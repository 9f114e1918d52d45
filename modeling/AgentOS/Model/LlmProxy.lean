import Mathlib.Data.List.DropRight
import AgentOS.Lib.Regex
import AgentOS.Lib.Utf8
import AgentOS.Model.LlmGate

/-!
# The model on the host

`tools/llm_proxy.py` and the parts of `tools/llm_qemu_driver.py` and `user/planner_agent.c` on both
ends of the serial line. A `str` is a list of code points. `re` and `str` agree on what a blank is.

`str.lower` and the server are parameters. No result of `callRealLlmApi` is an exception that it does
not catch.
-/

namespace AgentOS

open Regex

/-- A `str`. -/
abbrev PyStr := List ℕ

/-- A literal. -/
def py (s : String) : PyStr := s.toList.map Char.toNat

/-- `str.isspace` of a character, and `\s`. -/
def isspace (c : ℕ) : Bool :=
  decide (9 ≤ c ∧ c ≤ 13 ∨ 28 ≤ c ∧ c ≤ 32 ∨ c = 0x85 ∨ c = 0xA0 ∨ c = 0x1680 ∨
    0x2000 ≤ c ∧ c ≤ 0x200A ∨ c = 0x2028 ∨ c = 0x2029 ∨ c = 0x202F ∨ c = 0x205F ∨ c = 0x3000)

/-- `s.split()`. -/
def pySplit (s : PyStr) : List PyStr := (s.splitOnP isspace).filter fun w => !w.isEmpty

/-- `s.strip()`. -/
def pyStrip (s : PyStr) : PyStr := (s.dropWhile isspace).rdropWhile isspace

/-- `s.replace(old, new)`. -/
def pyReplace (s old new : PyStr) : PyStr := sub (.word old) new s

/-- `needle in s`. -/
def pyIn (needle s : PyStr) : Bool := s.tails.any needle.isPrefixOf

/-! ### The request -/

/-- `task` in `main` of the planner. -/
def plannerTask (arg₁ arg₂ : Option (List UInt8)) : List UInt8 :=
  match arg₁, arg₂ with
  | none, _ => lit "fix todo delete bug"
  | some a, none =>
    if cstr a = lit "llm-demo" ∨ cstr a = lit "llm-api" then lit "fix todo delete bug" else a
  | some _, some task => task

/-- The request line that `request_llm_plan` prints. -/
def llmRequestLine (task : List UInt8) : List UInt8 :=
  lit "@@AGENTOS_LLM_REQ id=planner role=planner prompt=" ++ (cstr task ++ lit " @@END\n")

/-- `REQ_RE`. -/
def reqRe : Regex ℕ :=
  .seq (.word (py "@@AGENTOS_LLM_REQ")) (.seq (.plus isspace)
    (.seq (.group (.starLazy (· != 10))) (.seq (.plus isspace) (.word (py "@@END")))))

/-- `match.group(1)` of `REQ_RE.search`. -/
def reqPayload (buffer : PyStr) : Option PyStr := (search reqRe buffer).bind List.head?

/-- `field`. -/
def field (payload name : PyStr) (default : PyStr) : PyStr :=
  let pre := name ++ py "="
  match (pySplit payload).find? fun part => pre.isPrefixOf part with
  | some part => part.drop pre.length
  | none => default

/-! ### The response -/

/-- `[A-Za-z0-9_.:-]`. -/
def compactChar (c : ℕ) : Bool :=
  decide (65 ≤ c ∧ c ≤ 90 ∨ 97 ≤ c ∧ c ≤ 122 ∨ 48 ≤ c ∧ c ≤ 57 ∨ c = 95 ∨ c = 46 ∨ c = 58 ∨ c = 45)

/-- `compact_text`. -/
def compactText (text : PyStr) : PyStr :=
  let text := text.filter fun c => decide (c < 128)
  let text := pyReplace (pyReplace (pyStrip text) (py "\n") (py "_")) (py "\r") (py "_")
  let text := sub (.plus isspace) (py "_") text
  let text := sub (.one fun c => !compactChar c) (py "_") text
  let text := pyReplace text (py "@@END") (py "END")
  if (text.take 48).isEmpty then py "empty_model_response" else text.take 48

/-- `choose_action`; `lower` stands for `str.lower`. -/
def chooseAction (lower : PyStr → PyStr) (text : PyStr) : PyStr :=
  let normalized := lower text
  if pyIn (py "action=abort") normalized || pyIn (py "abort") normalized ||
      pyIn (py "cannot_fix") normalized then py "abort"
  else if pyIn (py "action=start_codelab") normalized || pyIn (py "start_codelab") normalized ||
      pyIn (py "fix") normalized || pyIn (py "patch") normalized || pyIn (py "test") normalized then
    py "start_codelab"
  else py "start_codelab"

/-- The line of a failure. -/
def failedLine (requestId text : PyStr) : PyStr :=
  py "@@AGENTOS_LLM_RESP id=" ++ requestId ++ py " state=failed text=" ++ text ++ py " @@END"

/-- The line of a success. -/
def doneLine (requestId text action : PyStr) : PyStr :=
  py "@@AGENTOS_LLM_RESP id=" ++ requestId ++ py " state=done text=" ++ text ++ py " action=" ++
    action ++ py " @@END"

/-- `demo_model_response`. -/
def demoModelResponse (requestId : PyStr) : PyStr :=
  doneLine requestId (py "plan_patch_test") (py "start_codelab")

/-- What `json.loads` returns. -/
inductive Json
  | null
  | bool (b : Bool)
  | number (text : PyStr)
  | str (s : PyStr)
  | arr (l : List Json)
  | obj (l : List (PyStr × Json))

namespace Json

/-- `data[key]` for a string. -/
def item (key : PyStr) : Json → Option Json
  | obj l => (l.find? fun x => x.1 == key).map Prod.snd
  | _ => none

/-- `data[0]`. -/
def first : Json → Option Json
  | arr (j :: _) => some j
  | str (c :: _) => some (str [c])
  | _ => none

/-- The text of the reply, which need not be a string. -/
def replyText (data : Json) : Json :=
  match (((data.item (py "choices")).bind first).bind (item (py "message"))).bind
      (item (py "content")) with
  | some text => text
  | none => (data.item (py "output_text")).getD (str [])

end Json

/-- The arguments of the command line. -/
structure ProxyArgs where
  apiMode : Bool
  apiKey : PyStr
  model : PyStr
  apiUrl : PyStr

/-- What is sent, less the fixed instructions. -/
structure ApiRequest where
  apiUrl : PyStr
  apiKey : PyStr
  model : PyStr
  content : PyStr

/-- The request for a prompt. -/
def ProxyArgs.request (args : ProxyArgs) (role prompt : PyStr) : ApiRequest :=
  ⟨args.apiUrl, args.apiKey, args.model, py "role=" ++ role ++ py "; prompt=" ++ prompt⟩

/-- What comes of it: a caught exception with its text, another exception, or the reply. -/
inductive ApiReply
  | error (exc : PyStr)
  | raised
  | data (j : Json)

/-- `call_real_llm_api`. -/
def callRealLlmApi (lower : PyStr → PyStr) (urlopen : ApiRequest → ApiReply)
    (requestId role prompt : PyStr) (args : ProxyArgs) : Option PyStr :=
  if args.apiKey = [] then some (failedLine requestId (py "missing_AGENTS_LLM_API_KEY"))
  else if args.model = [] then some (failedLine requestId (py "missing_model"))
  else if args.apiUrl = [] then some (failedLine requestId (py "missing_api_url"))
  else
    match urlopen (args.request role prompt) with
    | .error exc => some (failedLine requestId (py "api_error_" ++ compactText exc))
    | .raised => none
    | .data j =>
      match j.replyText with
      | .str text => some (doneLine requestId (compactText text) (chooseAction lower text))
      | _ => none

/-- `make_response`. -/
def makeResponse (lower : PyStr → PyStr) (urlopen : ApiRequest → ApiReply) (args : ProxyArgs)
    (payload : PyStr) : Option PyStr :=
  let requestId := field payload (py "id") (py "0")
  let role := field payload (py "role") (py "planner")
  let prompt := field payload (py "prompt") []
  if args.apiMode then callRealLlmApi lower urlopen requestId role prompt args
  else some (demoModelResponse requestId)

/-- What `write_master` writes for a response. -/
def responseBytes (response : PyStr) : Option (List UInt8) := Utf8.encode (response ++ py "\n")

end AgentOS
