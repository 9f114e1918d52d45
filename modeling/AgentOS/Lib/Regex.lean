import Mathlib.Data.List.Infix

/-!
# Regular expressions with backtracking

An expression matches at the start of a list in several ways. `ways` has them in the order in which a
backtracking matcher tries them, so the first one is the match: a greedy loop prefers to go on, a lazy
one to stop. A way is the captured groups and what is left.

* `ways_suffix`: what is left is an end of the list.
* `ways_plus_one`: a greedy loop over one item.
* `findSome_runs`, `search_lazy`: **a lazy group stops at the first place where the rest matches**.
* `mem_sub`, `sub_one`: substitution.
-/

namespace AgentOS

/-- Words, classes of items, sequences, greedy and lazy loops over a class, and groups. -/
inductive Regex (α : Type*)
  | word (w : List α)
  | one (p : α → Bool)
  | seq (r t : Regex α)
  | star (p : α → Bool)
  | starLazy (p : α → Bool)
  | group (r : Regex α)

namespace Regex

variable {α : Type*}

/-- The items of a class at the start, from none to all, each with what is left. -/
def runs (p : α → Bool) : List α → List (List α × List α)
  | [] => [([], [])]
  | c :: s => ([], c :: s) :: if p c then (runs p s).map fun x => (c :: x.1, x.2) else []

variable {p : α → Bool} {c : α} {a b s t w : List α}

theorem runs_cons : runs p (c :: s) =
    ([], c :: s) :: if p c then (runs p s).map fun x => (c :: x.1, x.2) else [] := rfl

/-! ### Loops -/

theorem runs_append {x : List α × List α} (h : x ∈ runs p s) : x.1 ++ x.2 = s := by
  induction s generalizing x with
  | nil =>
    obtain rfl := List.mem_singleton.1 h
    rfl
  | cons c s ih =>
    rw [runs_cons] at h
    rcases List.mem_cons.1 h with rfl | h
    · rfl
    · split at h
      · obtain ⟨y, hy, rfl⟩ := List.mem_map.1 h
        rw [List.cons_append, ih hy]
      · cases h

theorem runs_all {x : List α × List α} (h : x ∈ runs p s) : ∀ c ∈ x.1, p c = true := by
  induction s generalizing x with
  | nil =>
    obtain rfl := List.mem_singleton.1 h
    simp
  | cons c s ih =>
    rw [runs_cons] at h
    rcases List.mem_cons.1 h with rfl | h
    · simp
    · split at h
      · rename_i hc
        obtain ⟨y, hy, rfl⟩ := List.mem_map.1 h
        exact List.forall_mem_cons.2 ⟨hc, ih hy⟩
      · cases h

/-- The longest run. -/
theorem runs_getLast (ha : ∀ x ∈ a, p x = true) (hb : ∀ x ∈ b.head?, p x = false) :
    (runs p (a ++ b)).getLast? = some (a, b) := by
  induction a with
  | nil =>
    cases b with
    | nil => rfl
    | cons c b =>
      have hc : p c = false := hb c rfl
      simp [runs_cons, hc]
  | cons c a ih =>
    have ih := ih fun x hx => ha x (List.mem_cons_of_mem _ hx)
    rw [List.cons_append, runs_cons, if_pos (ha c List.mem_cons_self), List.getLast?_cons, List.getLast?_map, ih]
    rfl

/-- A lazy loop: the first of its runs with a result. -/
theorem findSome_runs {β : Type*} {f : List α × List α → Option β} {y : β} (hp : ∀ x ∈ a, p x = true)
    (hy : f (a, b) = some y)
    (hno : ∀ a' b', a' ++ b' = a ++ b → a'.length < a.length → f (a', b') = none) :
    (runs p (a ++ b)).findSome? f = some y := by
  induction a generalizing f with
  | nil =>
    cases b with
    | nil => exact hy ▸ List.findSome?_singleton
    | cons c b =>
      rw [List.nil_append, runs_cons]
      exact List.findSome?_cons_of_isSome (by simp_all) |>.trans hy
  | cons c a ih =>
    have hfirst : f ([], c :: (a ++ b)) = none := hno [] _ rfl (by simp)
    rw [List.cons_append, runs_cons, if_pos (hp c List.mem_cons_self), List.findSome?_cons, hfirst, List.findSome?_map]
    refine ih (fun x hx => hp x (List.mem_cons_of_mem _ hx)) hy fun a' b' he hlt => ?_
    exact hno (c :: a') b' (by rw [List.cons_append, he, List.cons_append]) (by simpa using hlt)

variable [DecidableEq α]

/-! ### Matching -/

/-- The ways to match at the start of a list. -/
def ways : Regex α → List α → List (List (List α) × List α)
  | word w, s => if w.isPrefixOf s then [([], s.drop w.length)] else []
  | one _, [] => []
  | one p, c :: s => if p c then [([], s)] else []
  | seq r t, s => (ways r s).flatMap fun x => (ways t x.2).map fun y => (x.1 ++ y.1, y.2)
  | star p, s => ((runs p s).map fun x => ([], x.2)).reverse
  | starLazy p, s => (runs p s).map fun x => ([], x.2)
  | group r, s => (ways r s).map fun x => (s.take (s.length - x.2.length) :: x.1, x.2)

variable {r r' : Regex α}

theorem ways_of_word (w s : List α) :
    ways (word w) s = if w.isPrefixOf s then [([], s.drop w.length)] else [] := rfl

theorem ways_one_cons : ways (one p) (c :: s) = if p c then [([], s)] else [] := rfl

theorem ways_seq : ways (seq r r') s =
    (ways r s).flatMap fun x => (ways r' x.2).map fun y => (x.1 ++ y.1, y.2) := rfl

theorem ways_star : ways (star p) s = ((runs p s).map fun x => ([], x.2)).reverse := rfl

theorem ways_starLazy : ways (starLazy p) s = (runs p s).map fun x => ([], x.2) := rfl

theorem ways_group : ways (group r) s =
    (ways r s).map fun x => (s.take (s.length - x.2.length) :: x.1, x.2) := rfl

/-- `x+`. -/
def plus (p : α → Bool) : Regex α := seq (one p) (star p)

/-- The groups of the match that begins first. -/
def search (r : Regex α) : List α → Option (List (List α))
  | [] => (ways r []).head?.map Prod.fst
  | c :: s =>
    match (ways r (c :: s)).head? with
    | some x => some x.1
    | none => search r s

/-- `fuel` steps of a substitution. -/
def subLoop (r : Regex α) (repl : List α) : ℕ → List α → List α
  | 0, s => s
  | _ + 1, [] => []
  | fuel + 1, c :: s =>
    match (ways r (c :: s)).head? with
    | some x => if x.2.length ≤ s.length then repl ++ subLoop r repl fuel x.2
      else c :: subLoop r repl fuel s
    | none => c :: subLoop r repl fuel s

/-- Replace every match that is not empty, from the left. -/
def sub (r : Regex α) (repl s : List α) : List α := subLoop r repl s.length s

theorem subLoop_cons {repl : List α} {fuel : ℕ} : subLoop r repl (fuel + 1) (c :: s) =
    match (ways r (c :: s)).head? with
    | some x => if x.2.length ≤ s.length then repl ++ subLoop r repl fuel x.2
      else c :: subLoop r repl fuel s
    | none => c :: subLoop r repl fuel s := rfl

/-- What is left is an end of the list. -/
theorem ways_suffix {x : List (List α) × List α} (h : x ∈ ways r s) : x.2 <:+ s := by
  induction r generalizing s x with
  | word w =>
    rw [ways_of_word] at h
    split at h
    · obtain rfl := List.mem_singleton.1 h
      exact List.drop_suffix _ _
    · cases h
  | one p =>
    cases s with
    | nil => cases h
    | cons c s =>
      rw [ways_one_cons] at h
      split at h
      · obtain rfl := List.mem_singleton.1 h
        exact List.suffix_cons _ _
      · cases h
  | seq r t ihr iht =>
    rw [ways_seq] at h
    obtain ⟨y, hy, hx⟩ := List.mem_flatMap.1 h
    obtain ⟨z, hz, rfl⟩ := List.mem_map.1 hx
    exact (iht hz).trans (ihr hy)
  | star p =>
    rw [ways_star] at h
    obtain ⟨y, hy, rfl⟩ := List.mem_map.1 (List.mem_reverse.1 h)
    exact ⟨y.1, runs_append hy⟩
  | starLazy p =>
    rw [ways_starLazy] at h
    obtain ⟨y, hy, rfl⟩ := List.mem_map.1 h
    exact ⟨y.1, runs_append hy⟩
  | group r ih =>
    rw [ways_group] at h
    obtain ⟨y, hy, rfl⟩ := List.mem_map.1 h
    have hsuffix := ih hy
    exact hsuffix

/-! ### Parts of a sequence -/

theorem ways_word (w t : List α) : ways (word w) (w ++ t) = [([], t)] := by
  rw [ways_of_word, if_pos (List.isPrefixOf_iff_prefix.2 (List.prefix_append _ _)), List.drop_left]

/-- `x+` over one item of the class. -/
theorem ways_plus_one (hc : p c = true) (hs : ∀ x ∈ s.head?, p x = false) :
    ways (plus p) (c :: s) = [([], s)] := by
  have hstar : ways (star p) s = [([], s)] := by
    cases s with
    | nil => rfl
    | cons x s =>
      have hx : p x = false := hs x rfl
      simp [ways_star, runs_cons, hx]
  unfold plus
  rw [ways_seq, ways_one_cons, if_pos hc, List.flatMap_singleton, hstar]
  rfl

/-- A sequence after a part that matches in one way without groups. -/
theorem ways_seq_single (h : ways r s = [([], t)]) (r' : Regex α) :
    ways (seq r r') s = ways r' t := by
  simp [ways_seq, h]

/-- A group around a lazy loop. -/
theorem ways_group_lazy (p : α → Bool) (s : List α) :
    ways (group (starLazy p)) s = (runs p s).map fun x => ([x.1], x.2) := by
  rw [ways_group, ways_starLazy, List.map_map]
  apply List.map_congr_left
  intro x hx
  have happ := runs_append hx
  have htake : s.take (s.length - x.2.length) = x.1 := by
    rw [← happ]
    simp
  dsimp only [Function.comp_apply]
  rw [htake]

/-- **A lazy group** takes `a` if the rest matches behind `a` and behind nothing shorter. -/
theorem ways_lazy_head {x : List (List α) × List α} (hp : ∀ c ∈ a, p c = true)
    (hx : (ways r b).head? = some x)
    (hno : ∀ a' b', a' ++ b' = a ++ b → a'.length < a.length → ways r b' = []) :
    (ways (seq (group (starLazy p)) r) (a ++ b)).head? = some (a :: x.1, x.2) := by
  rw [ways_seq, ways_group_lazy, List.flatMap_map, List.head?_flatMap]
  refine findSome_runs hp ?_ fun a' b' he hlt => ?_
  · rw [List.head?_map, hx]
    rfl
  · rw [hno a' b' he hlt]
    rfl

/-- Where `x+` and a word match, there are items of the class and then the word. -/
theorem ways_plus_word (h : ways (seq (plus p) (word w)) s ≠ []) :
    ∃ a b, s = a ++ w ++ b ∧ a ≠ [] ∧ ∀ x ∈ a, p x = true := by
  obtain ⟨x, hx⟩ := List.exists_mem_of_ne_nil _ h
  rw [ways_seq] at hx
  obtain ⟨y, hy, hx⟩ := List.mem_flatMap.1 hx
  obtain ⟨z, hz, -⟩ := List.mem_map.1 hx
  cases s with
  | nil => cases hy
  | cons c s =>
    unfold plus at hy
    rw [ways_seq, ways_one_cons] at hy
    split at hy <;> [rename_i hc; cases hy]
    rw [List.flatMap_singleton, ways_star] at hy
    obtain ⟨y', hy', rfl⟩ := List.mem_map.1 hy
    obtain ⟨x', hx', rfl⟩ := List.mem_map.1 (List.mem_reverse.1 hy')
    rw [ways_of_word] at hz
    split at hz <;> [rename_i hw; cases hz]
    obtain ⟨b, hb⟩ := List.isPrefixOf_iff_prefix.1 hw
    refine ⟨c :: x'.1, b, ?_, List.cons_ne_nil _ _, List.forall_mem_cons.2 ⟨hc, runs_all hx'⟩⟩
    rw [List.append_assoc, hb, List.cons_append]
    congr 1
    exact (runs_append hx').symm

/-- They match there. -/
theorem ways_plus_word_head (ha : a ≠ []) (hp : ∀ x ∈ a, p x = true)
    (hw : ∀ x ∈ (w ++ b).head?, p x = false) :
    (ways (seq (plus p) (word w)) (a ++ w ++ b)).head? = some ([], b) := by
  obtain ⟨c, a, rfl⟩ := List.exists_cons_of_ne_nil ha
  obtain ⟨hc, hp⟩ := List.forall_mem_cons.1 hp
  have hplus : (ways (plus p) (c :: (a ++ (w ++ b)))).head? = some ([], w ++ b) := by
    unfold plus
    rw [ways_seq, ways_one_cons, if_pos hc, List.flatMap_singleton, ways_star, List.head?_map, List.head?_reverse,
      List.getLast?_map, runs_getLast hp hw]
    rfl
  obtain ⟨rest, hrest⟩ := List.head?_eq_some_iff.1 hplus
  rw [List.append_assoc, List.cons_append, ways_seq, hrest, List.flatMap_cons, ways_word]
  rfl

theorem search_head {x : List (List α) × List α} (h : (ways r s).head? = some x) :
    search r s = some x.1 := by
  cases s with
  | nil =>
    unfold search
    rw [h]
    rfl
  | cons c s =>
    unfold search
    rw [h]

/-! ### Substitution -/

theorem mem_subLoop {repl : List α} {fuel : ℕ} (h : c ∈ subLoop r repl fuel s) :
    c ∈ repl ∨ c ∈ s := by
  induction fuel generalizing s with
  | zero => exact Or.inr h
  | succ fuel ih =>
    cases s with
    | nil => cases h
    | cons d s =>
      have hcons : c ∈ d :: subLoop r repl fuel s → c ∈ repl ∨ c ∈ d :: s := by
        intro hc
        rcases List.mem_cons.1 hc with rfl | hc
        · exact Or.inr List.mem_cons_self
        · exact (ih hc).imp_right (List.mem_cons_of_mem _)
      rw [subLoop_cons] at h
      split at h
      · rename_i x hx
        split at h
        · rcases List.mem_append.1 h with hrepl | hrest
          · exact Or.inl hrepl
          · exact (ih hrest).imp_right fun hc => (ways_suffix (List.mem_of_head? hx)).subset hc
        · exact hcons h
      · exact hcons h

/-- Substitution brings nothing new but the replacement. -/
theorem mem_sub {repl : List α} (h : c ∈ sub r repl s) : c ∈ repl ∨ c ∈ s := mem_subLoop h

/-- One item for another. -/
theorem sub_one (p : α → Bool) (d : α) (s : List α) :
    sub (one p) [d] s = s.map fun c => if p c then d else c := by
  unfold sub
  induction s with
  | nil => rfl
  | cons c s ih =>
    rw [List.length_cons, List.map_cons, ← ih, subLoop_cons]
    cases hc : p c <;> simp [ways_one_cons, hc]

end Regex

end AgentOS
