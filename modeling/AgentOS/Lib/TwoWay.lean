import AgentOS.Lib.Chain

/-!
# TwoWay lists with links both ways

Nodes are `some i`, and `none` is the head, which is no element. `next` and `prev` are the links.

* `TwoWay next prev l`: from the head, `next` runs through `l` and back to the head, and `prev`
  runs the other way.
* `TwoWay.unlink`, `TwoWay.push`: taking an element out, and putting one behind the head, by
  the stores that such code makes.
* `TwoWay.forward`, `TwoWay.backward`: the two ways to walk are linked lists.
-/

namespace AgentOS

variable {ι : Type*}

/-- From node `a`, the links run through `l` to node `c`, and back. -/
def Segment (next prev : Option ι → Option ι) : Option ι → List ι → Option ι → Prop
  | a, [], c => next a = c ∧ prev c = a
  | a, x :: l, c => next a = some x ∧ prev (some x) = a ∧ Segment next prev (some x) l c

/-- **A circular list** of the elements `l`. -/
structure TwoWay (next prev : Option ι → Option ι) (l : List ι) : Prop where
  links : Segment next prev none l none
  nodup : l.Nodup

variable {next prev next' prev' : Option ι → Option ι} {a c : Option ι} {b x : ι} {l l₁ l₂ : List ι}

/-! ### Segments -/

theorem segment_append : Segment next prev a (l₁ ++ x :: l₂) c ↔
    Segment next prev a l₁ (some x) ∧ Segment next prev (some x) l₂ c := by
  induction l₁ generalizing a with
  | nil => simp only [List.nil_append, Segment, and_assoc]
  | cons y l₁ ih => simp only [List.cons_append, Segment, ih, and_assoc]

/-- The links of a segment. -/
theorem Segment.frame (h : Segment next prev a l c) (ha : next' a = next a)
    (hn : ∀ x ∈ l, next' (some x) = next (some x)) (hp : ∀ x ∈ l, prev' (some x) = prev (some x))
    (hc : prev' c = prev c) : Segment next' prev' a l c := by
  induction l generalizing a with
  | nil => exact ⟨ha.trans h.1, hc.trans h.2⟩
  | cons x l ih =>
    refine ⟨ha.trans h.1, (hp x List.mem_cons_self).trans h.2.1, ?_⟩
    exact ih h.2.2 (hn x List.mem_cons_self) (fun y hy => hn y (List.mem_cons_of_mem _ hy))
      fun y hy => hp y (List.mem_cons_of_mem _ hy)

theorem Segment.first (h : Segment next prev a l c) : next a = c ∨ ∃ x ∈ l, next a = some x := by
  cases l with
  | nil => exact Or.inl h.1
  | cons x l => exact Or.inr ⟨x, List.mem_cons_self, h.1⟩

theorem Segment.last (h : Segment next prev a l c) : prev c = a ∨ ∃ x ∈ l, prev c = some x := by
  induction l generalizing a with
  | nil => exact Or.inl h.2
  | cons x l ih =>
    right
    rcases ih h.2.2 with he | ⟨y, hy, he⟩
    · exact ⟨x, List.mem_cons_self, he⟩
    · exact ⟨y, List.mem_cons_of_mem _ hy, he⟩

theorem Segment.forward (h : Segment next prev a l none) :
    Chain.Linked (fun i => next (some i)) (next a) l := by
  induction l generalizing a with
  | nil =>
    rw [h.1]
    exact Chain.Linked.nil
  | cons x l ih =>
    rw [h.1]
    exact Chain.Linked.cons (ih h.2.2)

theorem Segment.backward (h : Segment next prev none l c) :
    Chain.Linked (fun i => prev (some i)) (prev c) l.reverse := by
  induction l using List.reverseRecOn generalizing c with
  | nil =>
    rw [h.2]
    exact Chain.Linked.nil
  | append_singleton l x ih =>
    obtain ⟨h₁, h₂⟩ := segment_append.1 h
    rw [h₂.2, List.reverse_append]
    exact Chain.Linked.cons (ih h₁)

section Stores

variable [DecidableEq ι]

/-- **Taking an element out**: `b->next->prev = b->prev; b->prev->next = b->next;`. -/
theorem Segment.unlink (h₁ : Segment next prev a l₁ (some b)) (h₂ : Segment next prev (some b) l₂ c)
    (hb : b ∉ l₁ ∧ b ∉ l₂) (hl : ∀ x ∈ l₁, x ∉ l₂) (hn₁ : l₁.Nodup) (hn₂ : l₂.Nodup)
    (ha : ∀ x ∈ l₁ ++ l₂, some x ≠ a) (hc : ∀ x ∈ l₁ ++ l₂, some x ≠ c)
    (hnext : next' = Function.update next (prev (some b)) (next (some b)))
    (hprev : prev' = Function.update prev (next (some b)) (prev (some b))) :
    Segment next' prev' a (l₁ ++ l₂) c := by
  induction l₁ generalizing a with
  | nil =>
    cases l₂ with
    | nil =>
      rw [List.append_nil]
      refine ⟨?_, ?_⟩
      · rw [hnext, h₁.2, Function.update_self, h₂.1]
      · rw [hprev, h₂.1, Function.update_self, h₁.2]
    | cons y l₂ =>
      rw [List.nodup_cons] at hn₂
      refine ⟨?_, ?_, h₂.2.2.frame ?_ ?_ ?_ ?_⟩
      · rw [hnext, h₁.2, Function.update_self, h₂.1]
      · rw [hprev, h₂.1, Function.update_self, h₁.2]
      · rw [hnext, h₁.2, Function.update_of_ne (ha y List.mem_cons_self)]
      · intro x hx
        rw [hnext, h₁.2, Function.update_of_ne (ha x (List.mem_cons_of_mem _ hx))]
      · intro x hx
        rw [hprev, h₂.1, Function.update_of_ne]
        rintro he
        exact hn₂.1 (Option.some.inj he ▸ hx)
      · rw [hprev, h₂.1, Function.update_of_ne (hc y List.mem_cons_self).symm]
  | cons x l₁ ih =>
    rw [List.nodup_cons] at hn₁
    have hne : a ≠ prev (some b) := by
      rcases h₁.2.2.last with he | ⟨y, hy, he⟩
      · rw [he]
        exact (ha x List.mem_cons_self).symm
      · rw [he]
        exact (ha y (List.mem_cons_of_mem _ (List.mem_append_left _ hy))).symm
    have hnx : some x ≠ next (some b) := by
      rcases h₂.first with he | ⟨y, hy, he⟩
      · rw [he]
        exact hc x List.mem_cons_self
      · rw [he]
        intro hxy
        exact hl x List.mem_cons_self (Option.some.inj hxy ▸ hy)
    refine ⟨?_, ?_, ih h₁.2.2 ⟨fun hm => hb.1 (List.mem_cons_of_mem _ hm), hb.2⟩
      (fun y hy => hl y (List.mem_cons_of_mem _ hy)) hn₁.2 (fun y hy he => ?_)
      fun y hy => hc y (List.mem_cons_of_mem _ hy)⟩
    · rw [hnext, Function.update_of_ne hne]
      exact h₁.1
    · rw [hprev, Function.update_of_ne hnx]
      exact h₁.2.1
    · obtain rfl := Option.some.inj he
      rcases List.mem_append.1 hy with hy | hy
      · exact hn₁.1 hy
      · exact hl y List.mem_cons_self hy

theorem TwoWay.unlink (h : TwoWay next prev (l₁ ++ b :: l₂)) :
    TwoWay (Function.update next (prev (some b)) (next (some b)))
      (Function.update prev (next (some b)) (prev (some b))) (l₁ ++ l₂) := by
  obtain ⟨h₁, h₂⟩ := segment_append.1 h.links
  have hn := h.nodup
  rw [List.nodup_append] at hn
  obtain ⟨hn₁, hn₂, hd⟩ := hn
  rw [List.nodup_cons] at hn₂
  refine ⟨h₁.unlink h₂ ⟨fun hm => hd b hm b List.mem_cons_self rfl, hn₂.1⟩
    (fun x hx hx' => hd x hx x (List.mem_cons_of_mem _ hx') rfl) hn₁ hn₂.2
    (fun _ _ => Option.some_ne_none _) (fun _ _ => Option.some_ne_none _) rfl rfl, ?_⟩
  rw [List.nodup_append]
  exact ⟨hn₁, hn₂.2, fun x hx y hy => hd x hx y (List.mem_cons_of_mem _ hy)⟩

/-- **Putting an element first**: `b->next = head.next; b->prev = &head; head.next->prev = b;
head.next = b;`. -/
theorem TwoWay.push (h : TwoWay next prev l) (hb : b ∉ l) :
    TwoWay (Function.update (Function.update next (some b) (next none)) none (some b))
      (Function.update (Function.update prev (some b) none) (next none) (some b)) (b :: l) := by
  have hbn : (some b : Option ι) ≠ none := Option.some_ne_none b
  have hnb : next none ≠ some b := by
    rcases h.links.first with he | ⟨x, hx, he⟩
    · rw [he]
      exact hbn.symm
    · rw [he]
      rintro hxb
      exact hb (Option.some.inj hxb ▸ hx)
  refine ⟨⟨Function.update_self .., ?_, ?_⟩, List.nodup_cons.2 ⟨hb, h.nodup⟩⟩
  · rw [Function.update_of_ne hnb.symm, Function.update_self]
  · have hlinks := h.links
    cases l with
    | nil =>
      refine ⟨?_, ?_⟩
      · rw [Function.update_of_ne hbn, Function.update_self, hlinks.1]
      · rw [hlinks.1, Function.update_self]
    | cons y l =>
      have hy := (List.nodup_cons.1 h.nodup).1
      have hne : ∀ x ∈ y :: l, some x ≠ some b := fun x hx he => hb (Option.some.inj he ▸ hx)
      refine ⟨?_, ?_, hlinks.2.2.frame ?_ ?_ ?_ ?_⟩
      · rw [Function.update_of_ne hbn, Function.update_self, hlinks.1]
      · rw [hlinks.1, Function.update_self]
      · rw [Function.update_of_ne (Option.some_ne_none y),
          Function.update_of_ne (hne y List.mem_cons_self)]
      · intro x hx
        rw [Function.update_of_ne (Option.some_ne_none x),
          Function.update_of_ne (hne x (List.mem_cons_of_mem _ hx))]
      · intro x hx
        rw [hlinks.1, Function.update_of_ne, Function.update_of_ne
          (hne x (List.mem_cons_of_mem _ hx))]
        intro he
        exact hy (Option.some.inj he ▸ hx)
      · rw [hlinks.1, Function.update_of_ne (Option.some_ne_none y).symm,
          Function.update_of_ne hbn.symm]

end Stores

/-! ### Walks -/

theorem TwoWay.forward (h : TwoWay next prev l) :
    Chain.Linked (fun i => next (some i)) (next none) l := h.links.forward

theorem TwoWay.backward (h : TwoWay next prev l) :
    Chain.Linked (fun i => prev (some i)) (prev none) l.reverse := h.links.backward

/-- The empty list. -/
theorem twoWay_nil (hn : next none = none) (hp : prev none = none) : TwoWay next prev [] :=
  ⟨⟨hn, hp⟩, List.nodup_nil⟩

end AgentOS
