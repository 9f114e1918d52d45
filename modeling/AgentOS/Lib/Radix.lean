import Mathlib.Data.List.Induction
import Mathlib.Logic.Function.Basic

/-!
# Trees of tables in a store

A table has under every index another table, or nothing: `child t i`. `node child r p` is the table
at the end of path `p` from the root `r`.

* `node_congr`: the tables of a tree determine it.
* `node_graft`: one more table, under an index that had none.
* `Tree`: no table is met on two paths; `Tree.sub`, `Tree.disjoint`, `Tree.not_below`: the tables
  below different indices differ, and the root is below none.
-/

namespace AgentOS.Radix

variable {F I : Type*}

/-- The table at the end of a path. -/
def node (child : F → I → Option F) (r : F) : List I → Option F
  | [] => some r
  | i :: p => (child r i).bind fun c => node child c p

variable {child child' : F → I → Option F} {r t f c d n : F} {i j : I} {p q : List I}

theorem node_append :
    node child r (p ++ q) = (node child r p).bind fun c => node child c q := by
  induction p generalizing r with
  | nil => rfl
  | cons i p ih =>
    rw [List.cons_append, node, node, Option.bind_assoc]
    congr 1
    funext c
    exact ih

theorem node_snoc : node child r (p ++ [i]) = (node child r p).bind fun c => child c i := by
  rw [node_append]
  congr 1
  funext c
  exact Option.bind_fun_some _

/-- **A tree is what its tables hold.** -/
theorem node_congr (h : ∀ p f, node child r p = some f → child' f = child f) :
    node child' r p = node child r p := by
  induction p using List.reverseRecOn with
  | nil => rfl
  | append_singleton p i ih =>
    rw [node_snoc, node_snoc, ih]
    cases hp : node child r p with
    | none => rfl
    | some f =>
      rw [Option.bind_some, Option.bind_some, h p f hp]

/-- **One more table.** -/
theorem node_graft [DecidableEq I] (ht : node child r p = some t)
    (huniq : ∀ q, node child r q = some t → q = p) (hnone : child t i = none)
    (hself : child' t i = some n) (hother : ∀ f j, ¬(f = t ∧ j = i) → child' f j = child f j)
    (hempty : ∀ j, child n j = none) (hn : n ≠ t) (q : List I) :
    node child' r q = if q = p ++ [i] then some n else node child r q := by
  induction q using List.reverseRecOn with
  | nil => rw [if_neg (by simp)]; rfl
  | append_singleton q j ih =>
    rw [node_snoc, node_snoc, ih]
    by_cases hq : q = p ++ [i]
    · -- below the new table there is nothing
      have hne : q ++ [j] ≠ p ++ [i] := by
        intro he
        have hqp := (List.append_inj' he rfl).1
        rw [hq] at hqp
        have hlen := congrArg List.length hqp
        simp at hlen
      rw [if_pos hq, if_neg hne, Option.bind_some, hother n j fun hc => hn hc.1, hempty, hq,
        node_snoc, ht, Option.bind_some, hnone]
      rfl
    · rw [if_neg hq]
      by_cases hqj : q ++ [j] = p ++ [i]
      · obtain ⟨rfl, hji⟩ := List.append_inj' hqj rfl
        obtain rfl := List.singleton_inj.1 hji
        rw [if_pos rfl, ht, Option.bind_some, hself]
      · rw [if_neg hqj]
        cases hf : node child r q with
        | none => rfl
        | some f =>
          refine hother f j ?_
          rintro ⟨rfl, rfl⟩
          rw [huniq q hf] at hqj
          exact hqj rfl

/-! ### Trees -/

/-- Table `f` is met on the way from `r`. -/
def Below (child : F → I → Option F) (r f : F) : Prop := ∃ p, node child r p = some f

/-- No table is met twice. -/
def Tree (child : F → I → Option F) (r : F) : Prop :=
  ∀ p q f, node child r p = some f → node child r q = some f → p = q

theorem below_self : Below child r r := ⟨[], rfl⟩

theorem below_iff : Below child r f ↔ f = r ∨ ∃ i c, child r i = some c ∧ Below child c f := by
  constructor
  · rintro ⟨p, hp⟩
    cases p with
    | nil => exact .inl (Option.some.inj hp).symm
    | cons i p =>
      obtain ⟨c, hc, hp⟩ := Option.bind_eq_some_iff.1 hp
      exact .inr ⟨i, c, hc, p, hp⟩
  · rintro (rfl | ⟨i, c, hc, p, hp⟩)
    · exact below_self
    · refine ⟨i :: p, ?_⟩
      rw [node, hc, Option.bind_some, hp]

theorem node_cons (hc : child r i = some c) (hp : node child c p = some f) :
    node child r (i :: p) = some f := by
  rw [node, hc, Option.bind_some, hp]

theorem Tree.sub (h : Tree child r) (hc : child r i = some c) : Tree child c := by
  intro p q f hp hq
  exact (List.cons.inj (h _ _ f (node_cons hc hp) (node_cons hc hq))).2

theorem Tree.disjoint (h : Tree child r) (hc : child r i = some c) (hd : child r j = some d)
    (hij : i ≠ j) (hf : Below child c f) : ¬Below child d f := by
  obtain ⟨p, hp⟩ := hf
  rintro ⟨q, hq⟩
  exact hij (List.cons.inj (h _ _ f (node_cons hc hp) (node_cons hd hq))).1

theorem Tree.not_below (h : Tree child r) (hc : child r i = some c) : ¬Below child c r := by
  rintro ⟨p, hp⟩
  have he := h _ [] r (node_cons hc hp) rfl
  cases he

/-- A tree whose tables are as before. -/
theorem Tree.congr (h : Tree child r) (hc : ∀ f, Below child r f → child' f = child f) :
    Tree child' r ∧ ∀ f, Below child' r f ↔ Below child r f := by
  have hn : ∀ p, node child' r p = node child r p := fun p =>
    node_congr fun q f hq => hc f ⟨q, hq⟩
  refine ⟨fun p q f hp hq => ?_, fun f => ?_⟩
  · rw [hn] at hp hq
    exact h p q f hp hq
  · unfold Below
    rw [exists_congr fun p => by rw [hn]]

end AgentOS.Radix
