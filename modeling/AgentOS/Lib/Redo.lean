import Mathlib.Data.List.Basic
import Mathlib.Logic.Function.Basic

/-!
# Redo logs

A store is a function from addresses; a redo log lists pairs of an address and a value, to be stored
in order. `Recovers home log d σ` says that this turns the store `d` into `σ` on the addresses of
`home`, whatever `d` holds at the logged ones.

* `Recovers.write`, `Recovers.outside`: stores that a crash may leave behind.
* `Recovers.begin`, `Recovers.clear`: from an empty log to a full one and back; these are the two
  points at which what is recovered may change.
-/

namespace AgentOS.Redo

variable {α β : Type*}

/-- **With this log, `d` recovers to `σ`** on the addresses of `home`. -/
structure Recovers (home : α → Prop) (log : List (α × β)) (d σ : α → β) : Prop where
  logged : ∀ e ∈ log, σ e.1 = e.2
  rest : ∀ a, home a → (∀ e ∈ log, e.1 ≠ a) → d a = σ a

variable {home : α → Prop} {log : List (α × β)} {d σ τ : α → β} {a : α}

section

variable [DecidableEq α]

/-- A store at a logged address, with any value at all. -/
theorem Recovers.write (h : Recovers home log d σ) {e : α × β} (he : e ∈ log) (v : β) :
    Recovers home log (Function.update d e.1 v) σ := by
  refine ⟨h.logged, fun a ha hm => ?_⟩
  rw [Function.update_of_ne (hm e he).symm]
  exact h.rest a ha hm

/-- A store outside of `home`. -/
theorem Recovers.outside (h : Recovers home log d σ) (ha : ¬ home a) (v : β) :
    Recovers home log (Function.update d a v) σ := by
  refine ⟨h.logged, fun x hx hm => ?_⟩
  have hxa : x ≠ a := by
    rintro rfl
    exact ha hx
  rw [Function.update_of_ne hxa]
  exact h.rest x hx hm

end

namespace Recovers

theorem nil : Recovers home [] d σ ↔ ∀ a, home a → d a = σ a := by
  constructor
  · intro h a ha
    apply h.rest a ha
    intro e he
    cases he
  · intro h
    refine ⟨fun e he => ?_, fun a ha _ => h a ha⟩
    cases he

/-- **The commit**: from an empty log to one that carries `σ` to `τ`. -/
theorem begin (h : Recovers home [] d σ) (hlog : ∀ e ∈ log, τ e.1 = e.2)
    (hτ : ∀ a, home a → (∀ e ∈ log, e.1 ≠ a) → τ a = σ a) : Recovers home log d τ :=
  ⟨hlog, fun a ha hm => by rw [hτ a ha hm]; exact nil.1 h a ha⟩

/-- **The end of the transaction**: every logged address holds its value. -/
theorem clear (h : Recovers home log d σ) (hd : ∀ e ∈ log, d e.1 = e.2) :
    Recovers home [] d σ := by
  refine nil.2 fun a ha => ?_
  by_cases hm : ∃ e ∈ log, e.1 = a
  · obtain ⟨e, he, rfl⟩ := hm
    rw [hd e he, h.logged e he]
  · push Not at hm
    exact h.rest a ha hm

end Recovers

end AgentOS.Redo
