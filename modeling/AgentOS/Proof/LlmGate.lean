import AgentOS.Model.LlmGate
import Mathlib.Data.List.Infix

/-!
# What opens the gate of the planner

`planner_agent llm-api` looks for strings in the first 255 bytes of the response line. An approval is
more: the field `action=start_codelab` inside a frame, and no refusal anywhere in the line
(`Approves`).

* `contains_iff`: `contains` finds a string as a part of another.
* **`gate_exact`**: the planner goes on exactly for the lines whose first bytes have both markers of a
  frame, no refusal and one of three strings.
* `gate_opens`: some of these lines are no approval.
-/

namespace AgentOS

/-- The complete line that a response puts on the serial port, with the byte that ends it. -/
def responseLine : List UInt8 → List UInt8
  | [] => []
  | c :: input => if c = 10 ∨ c = 13 then [c] else c :: responseLine input

/-- A blank. -/
def blank : UInt8 := 32

/-- `field` is one of the words of `body`. -/
def HasField (body field : List UInt8) : Prop :=
  blank :: (field ++ [blank]) <:+: blank :: (body ++ [blank])

/-- The line has a frame, from its begin marker to the first end marker, with this field. -/
def FramedField (line field : List UInt8) : Prop :=
  ∃ before body after, line = before ++ llmRespBegin ++ body ++ llmRespEnd ++ after ∧
    ¬ llmRespEnd <:+: body ∧ HasField body field

/-- The line refuses the repair. -/
def Refuses (line : List UInt8) : Prop :=
  lit "action=abort" <:+: line ∨ lit "state=failed" <:+: line

/-- **An explicit approval.** -/
def Approves (line : List UInt8) : Prop :=
  FramedField line (lit "action=start_codelab") ∧ ¬ Refuses line

/-- The bytes that the planner looks at: the first 255, up to a NUL. -/
def seen (line : List UInt8) : List UInt8 := cstr (line.take (llmResponseMax - 1))

/-- In those bytes there are both markers of a frame, and no refusal. -/
def LooksFramed (line : List UInt8) : Prop :=
  llmRespBegin <:+: seen line ∧ llmRespEnd <:+: seen line ∧ ¬ Refuses (seen line)

/-- One of the three strings that the planner takes for an approval is in those bytes. -/
def LooksApproved (line : List UInt8) : Prop :=
  lit "action=start_codelab" <:+: seen line ∨ lit "action=query_file" <:+: seen line ∨
    lit "state=done" <:+: seen line

section

variable {s needle line input : List UInt8}

theorem containsLoop_iff (h : needle ≠ []) : containsLoop needle s = true ↔ needle <:+: s := by
  induction s with
  | nil =>
    refine iff_of_false (by simp [containsLoop]) fun hi => ?_
    exact h (List.infix_nil.mp hi)
  | cons c s ih =>
    have hstep : containsLoop needle (c :: s) =
        (needle.isPrefixOf (c :: s) || containsLoop needle s) := rfl
    rw [hstep, Bool.or_eq_true, List.isPrefixOf_iff_prefix, ih, List.infix_cons_iff]

/-- **`contains`** looks for a part of the string. -/
theorem contains_iff (h : cstr needle = needle) (hne : needle ≠ []) :
    contains s needle = true ↔ needle <:+: cstr s := by
  unfold contains
  rw [h, Bool.or_eq_true, List.isEmpty_iff, containsLoop_iff hne]
  exact or_iff_right hne

theorem getsLoop_eq (room : ℕ) (input : List UInt8) :
    getsLoop room input = (responseLine input).take room := by
  induction room generalizing input with
  | zero => rfl
  | succ room ih =>
    cases input with
    | nil => rfl
    | cons c input =>
      unfold getsLoop responseLine
      split
      · rw [List.take_of_length_le]
        exact Nat.le_add_left 1 room
      · rw [ih, List.take_succ_cons]

/-- The check of the response, as a condition on the line. -/
theorem allowsCodelab_iff : llmResponseAllowsCodelab (gets input llmResponseMax) = true ↔
    LooksFramed (responseLine input) ∧ LooksApproved (responseLine input) := by
  have hfind : ∀ needle, cstr needle = needle → needle ≠ [] →
      (contains (gets input llmResponseMax) needle = true ↔
        needle <:+: seen (responseLine input)) := by
    intro needle h hne
    rw [contains_iff h hne]
    unfold gets seen
    rw [getsLoop_eq]
  unfold llmResponseAllowsCodelab LooksFramed LooksApproved Refuses
  rw [← hfind llmRespBegin (by decide +kernel) (by decide +kernel),
    ← hfind llmRespEnd (by decide +kernel) (by decide +kernel),
    ← hfind (lit "action=abort") (by decide +kernel) (by decide +kernel),
    ← hfind (lit "state=failed") (by decide +kernel) (by decide +kernel),
    ← hfind (lit "action=start_codelab") (by decide +kernel) (by decide +kernel),
    ← hfind (lit "action=query_file") (by decide +kernel) (by decide +kernel),
    ← hfind (lit "state=done") (by decide +kernel) (by decide +kernel)]
  split
  · rename_i h
    rw [Bool.or_eq_true, Bool.not_eq_true', Bool.not_eq_true'] at h
    refine iff_of_false (by simp) fun hc => ?_
    rcases h with h | h
    · rw [hc.1.1] at h
      cases h
    · rw [hc.1.2.1] at h
      cases h
  rename_i hframe
  rw [Bool.or_eq_true, Bool.not_eq_true', Bool.not_eq_true', not_or, Bool.not_eq_false,
    Bool.not_eq_false] at hframe
  split
  · rename_i h
    rw [Bool.or_eq_true] at h
    exact iff_of_false (by simp) fun hc => hc.1.2.2 h.symm
  · rename_i h
    rw [Bool.or_eq_true] at h
    rw [Bool.or_eq_true, Bool.or_eq_true, or_assoc]
    exact ⟨fun hc => ⟨⟨hframe.1, hframe.2, fun hr => h hr.symm⟩, hc⟩, fun hc => hc.2⟩

/-! ### The gate -/

/-- **When `planner_agent llm-api` goes on**: `agent_create` has not returned 0, the first wait has
ended with a heartbeat, and the bytes of the line that `gets` stores have both markers, no refusal
and one of the three strings. -/
theorem gate_exact (e : PlannerEnv) : plannerGoesOn (some (lit "llm-api")) e = true ↔
    e.agentCreate ≠ 0 ∧ e.heartbeat = true ∧ LooksFramed (responseLine e.input) ∧
      LooksApproved (responseLine e.input) := by
  have hmode : modelModeOf (some (lit "llm-api")) = 2 := by decide +kernel
  have hret : 0 ≤ (requestLlmPlan 2 e.input).ret ↔
      llmResponseAllowsCodelab (gets e.input llmResponseMax) = true := by
    unfold requestLlmPlan
    rw [if_neg (by decide), if_pos rfl]
    split
    · rename_i h
      exact iff_of_true (by decide) h
    · rename_i h
      exact iff_of_false (by decide) h
  unfold plannerGoesOn
  rw [hmode, Bool.and_eq_true, Bool.and_eq_true, decide_eq_true_iff, hret, allowsCodelab_iff,
    bne_iff_ne, and_assoc]

/-- A word of the frame is a part of it. -/
theorem HasField.within {body field : List UInt8} (h : HasField body field) : field <:+: body := by
  obtain ⟨x, y, hxy⟩ := h
  obtain ⟨z, hz⟩ : ∃ z, z ++ field ++ [blank] ++ y = body ++ [blank] := by
    rcases x with _ | ⟨c, x⟩
    · exact ⟨[], by simpa using hxy⟩
    · exact ⟨x ++ [blank], by simpa using (List.cons.inj hxy).2⟩
  rcases List.eq_nil_or_concat y with rfl | ⟨y, d, rfl⟩
  · rw [List.append_nil] at hz
    obtain rfl := (List.append_inj' hz rfl).1
    exact ⟨z, [], by simp⟩
  · rw [List.concat_eq_append, ← List.append_assoc] at hz
    obtain rfl := (List.append_inj' hz rfl).1
    exact ⟨z, [blank] ++ y, by simp⟩

/-- A field of a frame stands behind a begin marker. -/
theorem FramedField.behind {field : List UInt8} (h : FramedField line field) :
    ∃ rest ∈ line.tails, llmRespBegin <+: rest ∧ field <:+: rest := by
  obtain ⟨before, body, after, rfl, -, hfield⟩ := h
  refine ⟨llmRespBegin ++ (body ++ (llmRespEnd ++ after)), ?_, List.prefix_append .., ?_⟩
  · rw [List.mem_tails]
    exact ⟨before, by simp only [List.append_assoc]⟩
  · refine hfield.within.trans ⟨llmRespBegin, llmRespEnd ++ after, ?_⟩
    simp only [List.append_assoc]

end

/-- A response that reports its state and has no action. -/
def doneResponse : List UInt8 := lit "@@AGENTOS_LLM_RESP id=planner state=done text=ok @@END\n"

/-- A response with the action before its frame. -/
def unframedResponse : List UInt8 :=
  lit "action=start_codelab @@AGENTOS_LLM_RESP id=planner text=ok @@END\n"

/-- An approval, and a refusal behind the bytes that `gets` stores. -/
def lateResponse : List UInt8 :=
  lit "@@AGENTOS_LLM_RESP id=planner action=start_codelab @@END" ++ List.replicate 200 120 ++
    lit " action=abort\n"

set_option maxRecDepth 100000 in
/-- **The planner goes on without an approval**: on another string, on one outside the frame, and on
a line with a refusal. -/
theorem gate_opens : [doneResponse, unframedResponse, lateResponse].Forall fun line =>
    plannerGoesOn (some (lit "llm-api")) ⟨4096, true, line⟩ = true ∧ responseLine line = line ∧
      ¬ Approves line := by
  refine ⟨⟨by decide +kernel, by decide +kernel, fun h => ?_⟩,
    ⟨by decide +kernel, by decide +kernel, fun h => ?_⟩,
    ⟨by decide +kernel, by decide +kernel, fun h => ?_⟩⟩
  · exact absurd h.1.behind (by decide +kernel)
  · exact absurd h.1.behind (by decide +kernel)
  · exact h.2 (.inl (by decide +kernel))

end AgentOS
