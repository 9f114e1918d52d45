import AgentOS.Lib.Fields
import AgentOS.Model.LlmProxy

/-!
# The prompt on its way to the host

The planner prints its task between blanks, and the host cuts the line at blanks. `text` is the task
as the host decodes it.

* `pySplit_cons`, `pySplit_word`: the first word of a text.
* `request_decoded`: the request line as the host has it.
* `reqPayload_eq`: **`REQ_RE` finds the request**, less the blanks at the end of the task.
* `request_fields`: the field `prompt` is the task up to its first blank.
* `makeResponse_request`: what the host answers.
* **`prompt_survives_iff`**: the prompt arrives if and only if there is no blank in it.
-/

namespace AgentOS

open Regex Fields

section

variable {w s t text : PyStr} {c : ℕ}

/-! ### Words -/

/-- A word and a blank. -/
theorem pySplit_cons (hw : ∀ x ∈ w, isspace x = false) (hne : w ≠ []) (hc : isspace c = true) :
    pySplit (w ++ c :: s) = w :: pySplit s := by
  unfold pySplit
  rw [List.splitOnP_append_cons_of_forall_mem hw c hc, List.filter_cons_of_pos (by simp [hne])]

/-- A blank in front. -/
theorem pySplit_blank (hc : isspace c = true) : pySplit (c :: s) = pySplit s := by
  unfold pySplit
  have hsplit : ([] ++ c :: s).splitOnP isspace = [] :: s.splitOnP isspace :=
    List.splitOnP_append_cons_of_forall_mem (by simp) c hc s
  rw [List.nil_append] at hsplit
  rw [hsplit, List.filter_cons_of_neg (by simp)]

/-- The last word. -/
theorem pySplit_last (hw : ∀ x ∈ w, isspace x = false) (hne : w ≠ []) : pySplit w = [w] := by
  unfold pySplit
  rw [List.splitOnP_eq_singleton hw, List.filter_cons_of_pos (by simp [hne]), List.filter_nil]

/-- A word that goes on up to the first blank. -/
theorem pySplit_word (hw : ∀ x ∈ w, isspace x = false) (hne : w ≠ []) (s : PyStr) :
    ∃ rest, pySplit (w ++ s) = (w ++ s.takeWhile fun x => !isspace x) :: rest := by
  have hword : ∀ x ∈ w ++ s.takeWhile fun x => !isspace x, isspace x = false := by
    intro x hx
    rcases List.mem_append.1 hx with hx | hx
    · exact hw x hx
    · simpa using List.mem_takeWhile_imp hx
  have hne' : (w ++ s.takeWhile fun x => !isspace x) ≠ [] := by simp [hne]
  have hsplit := List.takeWhile_append_dropWhile (p := fun x => !isspace x) (l := s)
  cases hrest : s.dropWhile fun x => !isspace x with
  | nil =>
    rw [hrest, List.append_nil] at hsplit
    rw [hsplit] at hword hne' ⊢
    exact ⟨[], pySplit_last hword hne'⟩
  | cons c t =>
    have hnil : (s.dropWhile fun x => !isspace x) ≠ [] := by simp [hrest]
    have hc := List.head_dropWhile_not (fun x => !isspace x) hnil
    simp only [hrest, List.head_cons, Bool.not_eq_false'] at hc
    refine ⟨pySplit t, ?_⟩
    conv_lhs => rw [← hsplit, hrest, ← List.append_assoc]
    exact pySplit_cons hword hne' hc

/-! ### The line -/

/-- The payload of a request with the prompt `s`. -/
def requestPayload (s : PyStr) : PyStr := py "id=planner role=planner prompt=" ++ s

/-- **The request line on the host.** -/
theorem request_decoded (task : List UInt8) : Utf8.decode (llmRequestLine task) =
    py "@@AGENTOS_LLM_REQ" ++
      32 :: (requestPayload (Utf8.decode (cstr task)) ++ 32 :: (py "@@END" ++ [10])) := by
  have hascii : ∀ b ∈ lit "@@AGENTOS_LLM_REQ id=planner role=planner prompt=", b.toNat < 128 := by
    decide
  have hbegin : (lit "@@AGENTOS_LLM_REQ id=planner role=planner prompt=").map UInt8.toNat =
      py "@@AGENTOS_LLM_REQ" ++ 32 :: py "id=planner role=planner prompt=" := by decide
  have hend : Utf8.decode (cstr task ++ lit " @@END\n") =
      Utf8.decode (cstr task) ++ 32 :: Utf8.decode (lit "@@END\n") :=
    Utf8.decode_append_ascii (b := 32) (by decide)
  have hmarker : Utf8.decode (lit "@@END\n") = py "@@END" ++ [10] := by decide
  unfold llmRequestLine requestPayload
  rw [Utf8.decode_ascii_append hascii, hbegin, hend, hmarker]
  simp only [List.append_assoc, List.cons_append]

/-- The end marker is in the payload only if it is in the prompt. -/
theorem marker_notMem (h : ¬ py "@@END" <:+: s) : ¬ py "@@END" <:+: requestPayload s := by
  have hfields : requestPayload s =
      py "id" ++ 61 :: (py "planner role" ++ 61 :: (py "planner prompt" ++ 61 :: s)) := by
    have hbegin : py "id=planner role=planner prompt=" =
        py "id" ++ 61 :: (py "planner role" ++ 61 :: (py "planner prompt" ++ [61])) := by decide
    unfold requestPayload
    rw [hbegin]
    simp only [List.append_assoc, List.cons_append, List.nil_append]
  have hkey : 61 ∉ py "@@END" := by decide
  rw [hfields, infix_fields_iff hkey, infix_fields_iff hkey, infix_fields_iff hkey]
  rintro (h' | h' | h' | h')
  · exact absurd h' (by decide)
  · exact absurd h' (by decide)
  · exact absurd h' (by decide)
  · exact h h'

/-- The payload without the blanks at its end does not end with a blank. -/
theorem payload_getLast {x : ℕ} (s : PyStr)
    (hx : (requestPayload (s.rdropWhile isspace)).getLast? = some x) : isspace x = false := by
  unfold requestPayload at hx
  by_cases hnil : s.rdropWhile isspace = []
  · rw [hnil, List.append_nil] at hx
    obtain rfl := Option.some.inj (hx.symm.trans (show _ = some 61 by decide))
    rfl
  · rw [List.getLast?_append_of_ne_nil _ hnil, List.getLast?_eq_some_getLast hnil] at hx
    obtain rfl := Option.some.inj hx
    simpa using List.rdropWhile_last_not isspace s hnil

/-- Only the end of the line closes the request. -/
theorem closes_behind {a b : PyStr} (hend : ¬ py "@@END" <:+: text)
    (h : a ++ b = requestPayload text ++ 32 :: (py "@@END" ++ [10]))
    (hlt : a.length < (requestPayload (text.rdropWhile isspace)).length) :
    ways (.seq (.plus isspace) (.word (py "@@END"))) b = [] := by
  by_contra hways
  obtain ⟨blanks, rest, rfl, -, hblanks⟩ := ways_plus_word hways
  have hocc : (a ++ blanks) ++ py "@@END" ++ rest =
      requestPayload text ++ 32 :: (py "@@END" ++ [10]) := by
    rw [← h]
    simp only [List.append_assoc]
  obtain ⟨c, hc, -⟩ := occurs_behind (by decide) (marker_notMem hend) hocc
  -- the blanks would begin inside the payload and go on to its end
  have hpayload : requestPayload text =
      requestPayload (text.rdropWhile isspace) ++ text.rtakeWhile isspace := by
    unfold requestPayload
    rw [List.append_assoc, List.rdropWhile_append_rtakeWhile]
  rw [hpayload, List.append_assoc] at hc
  rcases List.append_eq_append_iff.1 hc with ⟨e, he, rfl⟩ | ⟨e, rfl, -⟩
  · cases e using List.reverseRecOn with
    | nil =>
      rw [he, List.append_nil] at hlt
      exact Nat.lt_irrefl _ hlt
    | append_singleton e x =>
      have hlast : (requestPayload (text.rdropWhile isspace)).getLast? = some x := by
        rw [he]
        simp
      have hx := hblanks x (by simp)
      rw [payload_getLast text hlast] at hx
      cases hx
  · rw [List.length_append] at hlt
    omega

/-- **`REQ_RE` finds the request.** The blanks at the end of the prompt go to `\s+`. -/
theorem reqPayload_eq (hline : 10 ∉ text) (hend : ¬ py "@@END" <:+: text) :
    reqPayload (py "@@AGENTOS_LLM_REQ" ++ 32 :: (requestPayload text ++ 32 :: (py "@@END" ++ [10]))) =
      some (requestPayload (text.rdropWhile isspace)) := by
  have hrest : requestPayload text ++ 32 :: (py "@@END" ++ [10]) =
      requestPayload (text.rdropWhile isspace) ++
        (text.rtakeWhile isspace ++ [32] ++ py "@@END" ++ [10]) := by
    have htext : text.rdropWhile isspace ++ text.rtakeWhile isspace = text :=
      List.rdropWhile_append_rtakeWhile
    unfold requestPayload
    conv_lhs => rw [← htext]
    simp only [List.append_assoc, List.cons_append, List.nil_append]
  have hblanks : ∀ x ∈ text.rtakeWhile isspace ++ [32], isspace x = true := by
    intro x hx
    rcases List.mem_append.1 hx with hx | hx
    · exact List.mem_rtakeWhile_imp hx
    · rw [List.mem_singleton.1 hx]
      rfl
  have hdot : ∀ x ∈ requestPayload (text.rdropWhile isspace), (x != 10) = true := by
    refine bne_of_notMem ?_
    unfold requestPayload
    rw [List.mem_append, not_or]
    exact ⟨by decide, fun hmem => hline ((List.rdropWhile_prefix isspace text).subset hmem)⟩
  have hclose := ways_plus_word_head (p := isspace) (b := [10]) (by simp) hblanks
    (show ∀ x ∈ (py "@@END" ++ [10]).head?, isspace x = false by decide)
  have hlazy := ways_lazy_head hdot hclose fun a b h hlt =>
    closes_behind hend (h.trans hrest.symm) hlt
  have hblank : ∀ x ∈ (requestPayload text ++ 32 :: (py "@@END" ++ [10])).head?,
      isspace x = false := by
    intro x hx
    obtain rfl : 105 = x := Option.some.inj hx
    rfl
  have hways : (ways reqRe (py "@@AGENTOS_LLM_REQ" ++
      32 :: (requestPayload text ++ 32 :: (py "@@END" ++ [10])))).head? =
        some ([requestPayload (text.rdropWhile isspace)], [10]) := by
    unfold reqRe
    rw [ways_seq_single (ways_word _ _), ways_seq_single (ways_plus_one rfl hblank), hrest]
    exact hlazy
  unfold reqPayload
  rw [search_head hways]
  rfl

/-! ### The fields -/

/-- The words of the payload. -/
theorem payload_words (s : PyStr) : ∃ rest, pySplit (requestPayload s) =
    py "id=planner" :: py "role=planner" ::
      (py "prompt=" ++ s.takeWhile fun x => !isspace x) :: rest := by
  have hwords : requestPayload s =
      py "id=planner" ++ 32 :: (py "role=planner" ++ 32 :: (py "prompt=" ++ s)) := by
    have hbegin : py "id=planner role=planner prompt=" =
        py "id=planner" ++ 32 :: (py "role=planner" ++ 32 :: py "prompt=") := by decide
    unfold requestPayload
    rw [hbegin]
    simp only [List.append_assoc, List.cons_append]
  obtain ⟨rest, hrest⟩ := pySplit_word (w := py "prompt=") (by decide) (by decide) s
  refine ⟨rest, ?_⟩
  rw [hwords, pySplit_cons (by decide) (by decide) rfl, pySplit_cons (by decide) (by decide) rfl,
    hrest]

/-- **The fields**: the prompt stops at its first blank. -/
theorem request_fields (s default : PyStr) :
    field (requestPayload s) (py "id") default = py "planner" ∧
      field (requestPayload s) (py "role") default = py "planner" ∧
      field (requestPayload s) (py "prompt") default = s.takeWhile fun x => !isspace x := by
  obtain ⟨rest, hrest⟩ := payload_words s
  unfold field
  rw [hrest]
  exact ⟨rfl, rfl, rfl⟩

/-- **What the host answers to a request**: the model is asked for the first word. -/
theorem makeResponse_request (lower : PyStr → PyStr) (urlopen : ApiRequest → ApiReply)
    (args : ProxyArgs) (s : PyStr) : makeResponse lower urlopen args (requestPayload s) =
      if args.apiMode then callRealLlmApi lower urlopen (py "planner") (py "planner")
        (s.takeWhile fun x => !isspace x) args
      else some (demoModelResponse (py "planner")) := by
  obtain ⟨hid, -, -⟩ := request_fields s (py "0")
  obtain ⟨-, hrole, -⟩ := request_fields s (py "planner")
  obtain ⟨-, -, hprompt⟩ := request_fields s []
  unfold makeResponse
  dsimp only
  rw [hid, hrole, hprompt]

end

/-- The host finds the request, and has the whole task and the sender from it. -/
def PromptSurvives (task : List UInt8) : Prop :=
  ∃ payload, reqPayload (Utf8.decode (llmRequestLine task)) = some payload ∧
    field payload (py "prompt") [] = Utf8.decode (cstr task) ∧
    field payload (py "id") [] = py "planner" ∧ field payload (py "role") [] = py "planner"

/-- **The prompt arrives** if and only if there is no blank in it. -/
theorem prompt_survives_iff (task : List UInt8) (hline : 10 ∉ Utf8.decode (cstr task))
    (hend : ¬ py "@@END" <:+: Utf8.decode (cstr task)) :
    PromptSurvives task ↔ ∀ c ∈ Utf8.decode (cstr task), isspace c = false := by
  unfold PromptSurvives
  rw [request_decoded, reqPayload_eq hline hend]
  generalize Utf8.decode (cstr task) = text
  constructor
  · rintro ⟨payload, hpayload, hprompt, -, -⟩ c hc
    obtain rfl := Option.some.inj hpayload
    rw [(request_fields _ _).2.2] at hprompt
    rw [← hprompt] at hc
    simpa using List.mem_takeWhile_imp hc
  · intro hblank
    have hlast : text.rdropWhile isspace = text := by
      rw [List.rdropWhile_eq_self_iff]
      intro hne
      simp [hblank _ (List.getLast_mem hne)]
    obtain ⟨hid, hrole, hprompt⟩ := request_fields (text.rdropWhile isspace) []
    refine ⟨_, rfl, ?_, hid, hrole⟩
    rw [hprompt, hlast, List.takeWhile_eq_self_iff]
    intro c hc
    simp [hblank c hc]

/-- A task of one word. -/
theorem prompt_survives_word : PromptSurvives (lit "id=fix:todo") :=
  (prompt_survives_iff (lit "id=fix:todo") (by decide) (by decide)).2 (by decide)

/-- **Of the planner's own task** the host has the first word. -/
theorem prompt_cut : ∃ task text, task = plannerTask (some (lit "llm-api")) none ∧
    text = Utf8.decode (cstr task) ∧ 10 ∉ text ∧ ¬ py "@@END" <:+: text ∧ ¬ PromptSurvives task ∧
    (reqPayload (Utf8.decode (llmRequestLine task))).map
      (fun payload => field payload (py "prompt") []) = some (py "fix") := by
  have hfix : (reqPayload (Utf8.decode (llmRequestLine
      (plannerTask (some (lit "llm-api")) none)))).map
        (fun payload => field payload (py "prompt") []) = some (py "fix") := by decide
  refine ⟨_, _, rfl, rfl, by decide, by decide, ?_, hfix⟩
  rintro ⟨payload, hpayload, hprompt, -⟩
  rw [hpayload, Option.map_some, hprompt] at hfix
  exact absurd hfix (by decide)

end AgentOS
