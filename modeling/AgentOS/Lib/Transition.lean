import Mathlib.Data.List.Basic

/-!
# Labelled machines and their runs

A machine is a set of initial states and a partial step function; the label of a
step carries every choice the step makes (which party moves, what the environment
answers), so a run is a list of labels and can be evaluated.

* `Path ok s tr t`: the labels `tr` lead from `s` to `t`, and every step meets `ok`.
* `Reach ok tr s`: such a path from an initial state.
* `Reach.inv`, `Path.inv`: the induction rule; a property that holds initially and
  that every step keeps holds along every run.
* `path_of_run`, `path_of_runOk`: an evaluated run is a path.
-/

namespace AgentOS

/-- Initial states and a partial, deterministic step per label. -/
structure Machine (σ ℓ : Type*) where
  init : σ → Prop
  next : σ → ℓ → Option σ

namespace Machine

variable {σ ℓ : Type*} (M : Machine σ ℓ)

/-- Every step is allowed. -/
def always : σ → ℓ → Prop := fun _ _ => True

/-- **Paths** whose steps all meet `ok`, a condition on the state before the step
and on its label. -/
inductive Path (ok : σ → ℓ → Prop) : σ → List ℓ → σ → Prop
  | nil (s : σ) : Path ok s [] s
  | snoc {s t u : σ} {tr : List ℓ} {a : ℓ} :
      Path ok s tr t → ok t a → M.next t a = some u → Path ok s (tr ++ [a]) u

/-- **Runs from an initial state** whose steps all meet `ok`. -/
def Reach (ok : σ → ℓ → Prop) (tr : List ℓ) (s : σ) : Prop :=
  ∃ s₀, M.init s₀ ∧ M.Path ok s₀ tr s

/-- Run a list of labels. -/
def run (s : σ) : List ℓ → Option σ
  | [] => some s
  | a :: tr => (M.next s a).bind fun t => run t tr

/-- Run a list of labels whose steps all meet `ok`. -/
def runOk (ok : σ → ℓ → Prop) [∀ s a, Decidable (ok s a)] (s : σ) : List ℓ → Option σ
  | [] => some s
  | a :: tr => if ok s a then (M.next s a).bind fun t => runOk ok t tr else none

variable {M} {ok : σ → ℓ → Prop}

theorem Path.single {s t : σ} {a : ℓ} (ha : ok s a) (h : M.next s a = some t) :
    M.Path ok s [a] t := by
  simpa using Path.snoc (Path.nil s) ha h

theorem Path.trans {s t u : σ} {tr tr' : List ℓ} (h : M.Path ok s tr t) (h' : M.Path ok t tr' u) :
    M.Path ok s (tr ++ tr') u := by
  induction h' with
  | nil => simpa using h
  | snoc _ ha hn ih => rw [← List.append_assoc]; exact ih.snoc ha hn

theorem Path.cons {s t u : σ} {tr : List ℓ} {a : ℓ} (ha : ok s a) (hn : M.next s a = some t)
    (h : M.Path ok t tr u) : M.Path ok s (a :: tr) u :=
  (Path.single ha hn).trans h

/-- **Induction along a path**: what every allowed step keeps, a path keeps. -/
theorem Path.inv {P : σ → Prop} {s t : σ} {tr : List ℓ}
    (step : ∀ s a t, P s → ok s a → M.next s a = some t → P t)
    (h : M.Path ok s tr t) (h₀ : P s) : P t := by
  induction h with
  | nil => exact h₀
  | snoc _ ha hn ih => exact step _ _ _ ih ha hn

/-- As `Path.inv`, for a property of the state and the labels so far. -/
theorem Path.inv_tr {P : List ℓ → σ → Prop} {s t : σ} {tr : List ℓ}
    (step : ∀ tr s a t, P tr s → ok s a → M.next s a = some t → P (tr ++ [a]) t)
    (h : M.Path ok s tr t) (h₀ : P [] s) : P tr t := by
  induction h with
  | nil => exact h₀
  | snoc _ ha hn ih => exact step _ _ _ _ ih ha hn

theorem Path.mono {ok' : σ → ℓ → Prop} (hok : ∀ s a, ok s a → ok' s a) {s t : σ} {tr : List ℓ}
    (h : M.Path ok s tr t) : M.Path ok' s tr t := by
  induction h with
  | nil => exact Path.nil _
  | snoc _ ha hn ih => exact ih.snoc (hok _ _ ha) hn

/-- A path whose labels are allowed in every state. -/
theorem Path.of_labels {s t : σ} {tr : List ℓ} (h : M.Path always s tr t)
    (hok : ∀ a ∈ tr, ∀ s, ok s a) : M.Path ok s tr t := by
  induction h with
  | nil => exact Path.nil _
  | snoc _ _ hn ih =>
    exact (ih fun a ha => hok a (List.mem_append_left _ ha)).snoc (hok _ (by simp) _) hn

theorem Path.snoc_inv {s u : σ} {tr : List ℓ} {a : ℓ} (h : M.Path ok s (tr ++ [a]) u) :
    ∃ t, M.Path ok s tr t ∧ ok t a ∧ M.next t a = some u := by
  generalize htr : tr ++ [a] = tr' at h
  cases h with
  | nil => simp at htr
  | @snoc t _ tr₀ b hp hb hn =>
    obtain ⟨rfl, hab⟩ := List.append_inj' htr rfl
    obtain rfl := List.singleton_inj.1 hab
    exact ⟨t, hp, hb, hn⟩

/-- Labels determine the run. -/
theorem Path.det {ok' : σ → ℓ → Prop} {s t t' : σ} {tr : List ℓ} (h : M.Path ok s tr t)
    (h' : M.Path ok' s tr t') : t = t' := by
  induction h generalizing t' with
  | nil =>
    generalize htr : ([] : List ℓ) = tr' at h'
    cases h' with
    | nil => rfl
    | snoc => simp at htr
  | snoc _ _ hn ih =>
    obtain ⟨u, hp, -, hn'⟩ := h'.snoc_inv
    have hu := ih hp
    rw [hu, hn'] at hn
    exact (Option.some.inj hn).symm

/-- **Two conditions of which, along a run, one implies the other**: what the run's steps meet of
the first they meet of the second. -/
theorem Path.congr {P : σ → Prop} {g g' : σ → ℓ → Prop} {s t : σ} {tr : List ℓ}
    (h : M.Path ok s tr t) (step : ∀ s a t, P s → ok s a → g s a → M.next s a = some t → P t)
    (hg : ∀ s a t, P s → ok s a → M.next s a = some t → g s a → g' s a) (h₀ : P s)
    (hpath : M.Path g s tr t) : M.Path g' s tr t := by
  have key : P t ∧ M.Path g' s tr t := by
    induction h with
    | nil => exact ⟨h₀, Path.nil _⟩
    | snoc hp ha hn ih =>
      obtain ⟨u, hpu, hu, hnu⟩ := hpath.snoc_inv
      obtain rfl := hp.det hpu
      obtain ⟨hP, hpath'⟩ := ih hpu
      exact ⟨step _ _ _ hP ha hu hn, hpath'.snoc (hg _ _ _ hP ha hn hu) hn⟩
  exact key.2

/-- **Induction over reachable states.** -/
theorem Reach.inv {P : σ → Prop} {s : σ} {tr : List ℓ} (h₀ : ∀ s, M.init s → P s)
    (step : ∀ s a t, P s → ok s a → M.next s a = some t → P t)
    (h : M.Reach ok tr s) : P s := by
  obtain ⟨s₀, hi, hp⟩ := h
  exact hp.inv step (h₀ _ hi)

theorem Reach.snoc {s t : σ} {tr : List ℓ} {a : ℓ} (h : M.Reach ok tr s) (ha : ok s a)
    (hn : M.next s a = some t) : M.Reach ok (tr ++ [a]) t := by
  obtain ⟨s₀, hi, hp⟩ := h
  exact ⟨s₀, hi, hp.snoc ha hn⟩

theorem Reach.trans {s t : σ} {tr tr' : List ℓ} (h : M.Reach ok tr s) (h' : M.Path ok s tr' t) :
    M.Reach ok (tr ++ tr') t := by
  obtain ⟨s₀, hi, hp⟩ := h
  exact ⟨s₀, hi, hp.trans h'⟩

theorem Reach.mono {ok' : σ → ℓ → Prop} (hok : ∀ s a, ok s a → ok' s a) {s : σ} {tr : List ℓ}
    (h : M.Reach ok tr s) : M.Reach ok' tr s := by
  obtain ⟨s₀, hi, hp⟩ := h
  exact ⟨s₀, hi, hp.mono hok⟩

/-- An evaluated run is a path. -/
theorem path_of_run {s t : σ} {tr : List ℓ} (h : M.run s tr = some t) :
    M.Path always s tr t := by
  induction tr generalizing s with
  | nil => simp only [run, Option.some.injEq] at h; subst h; exact Path.nil s
  | cons a tr ih =>
    simp only [run, Option.bind_eq_some_iff] at h
    obtain ⟨u, hu, hr⟩ := h
    exact Path.cons trivial hu (ih hr)

theorem run_append (s : σ) (tr tr' : List ℓ) :
    M.run s (tr ++ tr') = (M.run s tr).bind fun t => M.run t tr' := by
  induction tr generalizing s with
  | nil => rfl
  | cons a tr ih =>
    simp only [List.cons_append, run, Option.bind_assoc]
    congr 1
    funext t
    exact ih t

/-- A path is evaluated by its labels. -/
theorem Path.run {s t : σ} {tr : List ℓ} (h : M.Path ok s tr t) : M.run s tr = some t := by
  induction h with
  | nil => rfl
  | snoc _ _ hn ih =>
    rw [run_append, ih, Option.bind_some]
    simp only [Machine.run, hn, Option.bind_some]

/-- As `path_of_run`, to the state the evaluation ends in. -/
theorem path_getD {s d : σ} {tr : List ℓ} (h : (M.run s tr).isSome = true) :
    M.Path always s tr ((M.run s tr).getD d) := by
  obtain ⟨t, ht⟩ := Option.isSome_iff_exists.1 h
  rw [ht]
  exact path_of_run ht

/-- As `path_of_run`, with a condition that can be evaluated. -/
theorem path_of_runOk [∀ s a, Decidable (ok s a)] {s t : σ} {tr : List ℓ}
    (h : M.runOk ok s tr = some t) : M.Path ok s tr t := by
  induction tr generalizing s with
  | nil => simp only [runOk, Option.some.injEq] at h; subst h; exact Path.nil s
  | cons a tr ih =>
    unfold runOk at h
    split at h <;> [skip; cases h]
    rename_i ha
    simp only [Option.bind_eq_some_iff] at h
    obtain ⟨u, hu, hr⟩ := h
    exact Path.cons ha hu (ih hr)

/-- As `path_of_runOk`, to the state the evaluation ends in. -/
theorem pathOk_getD [∀ s a, Decidable (ok s a)] {s d : σ} {tr : List ℓ}
    (h : (M.runOk ok s tr).isSome = true) :
    M.Path ok s tr ((M.runOk ok s tr).getD d) := by
  obtain ⟨t, ht⟩ := Option.isSome_iff_exists.1 h
  rw [ht]
  exact path_of_runOk ht

/-- The condition does not change where the run ends. -/
theorem run_of_runOk [∀ s a, Decidable (ok s a)] {s t : σ} {tr : List ℓ}
    (h : M.runOk ok s tr = some t) : M.run s tr = some t := by
  induction tr generalizing s with
  | nil => exact h
  | cons a tr ih =>
    unfold runOk at h
    split at h <;> [skip; cases h]
    simp only [Option.bind_eq_some_iff] at h
    obtain ⟨u, hu, hr⟩ := h
    simp only [run, hu, Option.bind_some, ih hr]

theorem pathOk_run_getD [∀ s a, Decidable (ok s a)] {s d : σ} {tr : List ℓ}
    (h : (M.runOk ok s tr).isSome = true) : M.Path ok s tr ((M.run s tr).getD d) := by
  obtain ⟨t, ht⟩ := Option.isSome_iff_exists.1 h
  rw [run_of_runOk ht]
  exact path_of_runOk ht

/-- An evaluated step. -/
theorem next_getD {s d : σ} {a : ℓ} (h : (M.next s a).isSome = true) :
    M.next s a = some ((M.next s a).getD d) := by
  obtain ⟨t, ht⟩ := Option.isSome_iff_exists.1 h
  rw [ht]
  rfl

end Machine

end AgentOS
