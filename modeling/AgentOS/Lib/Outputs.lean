import AgentOS.Lib.Transition

/-!
# What a run shows

`M.outputs out s tr` lists what the steps of the run `tr` from `s` show, in order.
-/

namespace AgentOS.Machine

variable {σ ℓ ε : Type*} (M : Machine σ ℓ) (out : σ → ℓ → List ε)

/-- What the steps of a run show. -/
def outputs (s : σ) : List ℓ → List ε
  | [] => []
  | a :: tr => out s a ++ ((M.next s a).map fun t => outputs t tr).getD []

variable {M out} {ok : σ → ℓ → Prop} {s t : σ} {tr : List ℓ}

theorem outputs_append (h : M.run s tr = some t) (tr' : List ℓ) :
    M.outputs out s (tr ++ tr') = M.outputs out s tr ++ M.outputs out t tr' := by
  induction tr generalizing s with
  | nil =>
    obtain rfl := Option.some.inj h
    rfl
  | cons a tr ih =>
    obtain ⟨u, hu, hr⟩ := Option.bind_eq_some_iff.1 h
    rw [List.cons_append, outputs, outputs, hu, Option.map_some, Option.map_some, Option.getD_some,
      Option.getD_some, ih hr, List.append_assoc]

/-- **One more step.** -/
theorem outputs_snoc (h : M.Path ok s tr t) (a : ℓ) :
    M.outputs out s (tr ++ [a]) = M.outputs out s tr ++ out t a := by
  rw [outputs_append h.run, outputs]
  cases M.next t a with
  | none => rw [Option.map_none, Option.getD_none, List.append_nil]
  | some u => rw [Option.map_some, Option.getD_some, outputs, List.append_nil]

end AgentOS.Machine
