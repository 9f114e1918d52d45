import AgentOS.Lib.MoveFront
import AgentOS.Lib.Sums
import AgentOS.Model.BufferCache

/-!
# The list of buffers

* `inOrder_binit`: `binit` links every buffer.
* `cached_cases`, `unused_cases`: what the two loops of `bget` find.
* `InOrder.moved`: the end of `brelse` moves a buffer to the front.
-/

namespace AgentOS

namespace BufCache

/-- The buffers from `bcache.head` on are `l`. -/
structure InOrder (s : BufCache) (l : List BufIndex) : Prop where
  ring : TwoWay s.next s.prev l
  all : ∀ b, b ∈ l

variable {s t : BufCache} {l : List BufIndex} {b x : BufIndex} {key : BlockKey} {j : Slot}

theorem InOrder.length_le (h : InOrder s l) : l.length ≤ nbuf := by
  have hl := h.ring.nodup.length_le_card
  rwa [Fintype.card_fin] at hl

/-! ### `binit` -/

theorem foldl_pushFront (h : TwoWay s.next s.prev l) (xs : List BufIndex) (hn : xs.Nodup)
    (hd : ∀ x ∈ xs, x ∉ l) :
    TwoWay (xs.foldl pushFront s).next (xs.foldl pushFront s).prev (xs.reverse ++ l) := by
  induction xs generalizing s l with
  | nil => exact h
  | cons x xs ih =>
    rw [List.nodup_cons] at hn
    rw [List.reverse_cons, List.append_assoc]
    refine ih (s := s.pushFront x) (h.push (hd x List.mem_cons_self)) hn.2 fun y hy => ?_
    rw [List.singleton_append, List.mem_cons, not_or]
    refine ⟨?_, hd y (List.mem_cons_of_mem _ hy)⟩
    rintro rfl
    exact hn.1 hy

theorem foldl_pushFront_frame (xs : List BufIndex) (s : BufCache) :
    (xs.foldl pushFront s).buf = s.buf ∧ (xs.foldl pushFront s).disk = s.disk ∧
      (xs.foldl pushFront s).calls = s.calls := by
  induction xs generalizing s with
  | nil => exact ⟨rfl, rfl, rfl⟩
  | cons x xs ih => exact ih (s.pushFront x)

theorem inOrder_binit (disk : BlockKey → Block) :
    InOrder (.binit disk) (List.finRange nbuf).reverse := by
  constructor
  · have h := foldl_pushFront (s := ⟨fun _ => Buf.zero, fun _ => none, fun _ => none, disk,
      fun _ => .kernel⟩) (twoWay_nil rfl rfl) (List.finRange nbuf) (List.nodup_finRange nbuf)
      fun _ _ => List.not_mem_nil
    rwa [List.append_nil] at h
  · exact fun b => List.mem_reverse.2 (List.mem_finRange b)

theorem binit_frame (disk : BlockKey → Block) :
    (BufCache.binit disk).buf = (fun _ => Buf.zero) ∧ (BufCache.binit disk).disk = disk ∧
      (BufCache.binit disk).calls = fun _ => .kernel := foldl_pushFront_frame _ _

/-! ### The loops of `bget` -/

/-- **The buffer of a block**, if there is one. -/
theorem cached_cases (h : InOrder s l) (key : BlockKey) :
    (s.cached key = none ∧ ∀ b, (s.buf b).key ≠ key) ∨
      ∃ b, s.cached key = some b ∧ (s.buf b).key = key := by
  unfold cached
  rcases h.ring.forward.find (p := fun i => decide ((s.buf i).key = key)) h.length_le none with
    ⟨hf, hno⟩ | ⟨a, x, c, -, hf, hx, -⟩
  · left
    rw [hf]
    exact ⟨rfl, fun b => of_decide_eq_false (hno b (h.all b))⟩
  · right
    rw [hf]
    exact ⟨x, rfl, of_decide_eq_true hx⟩

/-- **The last buffer that is not in use.** -/
theorem unused_cases (h : InOrder s l) :
    (s.unused = none ∧ ∀ b, (s.buf b).refcnt ≠ 0) ∨
      ∃ l₁ b l₂, l = l₁ ++ b :: l₂ ∧ s.unused = some b ∧ (s.buf b).refcnt = 0 ∧
        ∀ x ∈ l₂, (s.buf x).refcnt ≠ 0 := by
  unfold unused
  have hlen : l.reverse.length ≤ nbuf := by
    rw [List.length_reverse]
    exact h.length_le
  rcases h.ring.backward.find (p := fun i => decide ((s.buf i).refcnt = 0)) hlen none with
    ⟨hf, hno⟩ | ⟨a, x, c, hl, hf, hx, hno⟩
  · left
    rw [hf]
    exact ⟨rfl, fun b => of_decide_eq_false (hno b (List.mem_reverse.2 (h.all b)))⟩
  · right
    rw [hf]
    refine ⟨c.reverse, x, a.reverse, ?_, rfl, of_decide_eq_true hx, fun y hy => ?_⟩
    · rw [← List.reverse_reverse l, hl, List.reverse_append, List.reverse_cons, List.append_assoc,
        List.singleton_append]
    · exact of_decide_eq_false (hno y (List.mem_reverse.1 hy))

/-! ### `brelse` -/

theorem erase_split {l₁ l₂ : List BufIndex} (hn : (l₁ ++ b :: l₂).Nodup) :
    (l₁ ++ b :: l₂).erase b = l₁ ++ l₂ := by
  have hb : b ∉ l₁ := fun hm => (List.nodup_append.1 hn).2.2 b hm b List.mem_cons_self rfl
  rw [List.erase_append_right _ hb, List.erase_cons_head]

/-- **A buffer moves to the front.** -/
theorem InOrder.moved (h : InOrder s l) (b : BufIndex) :
    InOrder ((s.unlink b).pushFront b) (moveFront l b) := by
  obtain ⟨l₁, l₂, rfl⟩ := List.append_of_mem (h.all b)
  have hn := h.ring.nodup
  have hu : TwoWay (s.unlink b).next (s.unlink b).prev (l₁ ++ l₂) := h.ring.unlink
  have hb : b ∉ l₁ ++ l₂ := by
    have hn' := List.nodup_middle.1 hn
    exact (List.nodup_cons.1 hn').1
  refine ⟨?_, fun x => (moveFront_perm (h.all b)).mem_iff.2 (h.all x)⟩
  unfold moveFront
  rw [erase_split hn]
  exact hu.push hb

/-! ### One buffer, one process -/

theorem setBuf_self {y : Buf} : (s.setBuf b y).buf b = y := Function.update_self ..

theorem setBuf_ne {y : Buf} (h : x ≠ b) : (s.setBuf b y).buf x = s.buf x :=
  Function.update_of_ne h ..

theorem goto_self {c : BufCall} : (s.goto j c).calls j = c := Function.update_self ..

theorem goto_ne {c : BufCall} {i : Slot} (h : i ≠ j) : (s.goto j c).calls i = s.calls i :=
  Function.update_of_ne h ..

theorem uses_waiting : (BufCall.waiting b).uses x = if b = x then 1 else 0 := by
  unfold BufCall.uses
  by_cases h : b = x
  · rw [if_pos h, h, if_pos (Or.inl rfl)]
  · rw [if_neg h, if_neg]
    rintro (he | he)
    · exact h (BufCall.waiting.inj he)
    · cases he

theorem uses_releasing : (BufCall.releasing b).uses x = if b = x then 1 else 0 := by
  unfold BufCall.uses
  by_cases h : b = x
  · rw [if_pos h, h, if_pos (Or.inr rfl)]
  · rw [if_neg h, if_neg]
    rintro (he | he)
    · cases he
    · exact h (BufCall.releasing.inj he)

theorem uses_kernel : BufCall.kernel.uses x = 0 := rfl

theorem uses_loading : (BufCall.loading b).uses x = 0 := rfl

/-- **The users of a buffer**, when one process goes on and its lock changes hands. -/
theorem users_change {c : BufCall} (hc : t.calls = Function.update s.calls j c) (x : BufIndex) :
    t.users x + (s.calls j).uses x + (if (s.buf x).lock = none then 0 else 1) =
      s.users x + c.uses x + if (t.buf x).lock = none then 0 else 1 := by
  have h := sum_comp_update (fun c => BufCall.uses c x) s.calls j c
  unfold users
  rw [hc]
  omega

theorem users_congr (hc : t.calls = s.calls) (hl : (t.buf x).lock = (s.buf x).lock) :
    t.users x = s.users x := by
  unfold users
  rw [hc, hl]

/-- A process that waits for a buffer, or drops it, is one of its users. -/
theorem uses_le_users (s : BufCache) (j : Slot) (x : BufIndex) :
    (s.calls j).uses x ≤ s.users x :=
  le_trans (le_sum (fun i => (s.calls i).uses x) j) (Nat.le_add_right _ _)

theorem users_pos_of_lock (h : (s.buf x).lock ≠ none) : 0 < s.users x := by
  unfold users
  rw [if_neg h]
  exact Nat.succ_pos _

end BufCache

end AgentOS
