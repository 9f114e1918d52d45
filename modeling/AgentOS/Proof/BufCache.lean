import AgentOS.Proof.BufList

/-!
# The buffer cache is one cell for each block

* `step_inv`: the steps of the cache.
* `BufInv`: one buffer for a block, references enough for the users, and a buffer that nobody holds
  or pins is the block on the disk.
* `bufs_refine_cells`: every run shows a run of cells with one owner at a time, so that a process
  that gets a block finds what was last stored in it.
-/

namespace AgentOS

open Machine

namespace BufCache

variable {s t : BufCache} {l : List BufIndex} {b x : BufIndex} {key : BlockKey} {i j : Slot}
  {a : BufLabel}

/-! ### The steps -/

/-- The buffer that `bget` gives to another block. -/
def recycle (s : BufCache) (b : BufIndex) (key : BlockKey) : BufCache :=
  s.setBuf b { s.buf b with
    dev := key.1
    blockno := key.2
    valid := false
    refcnt := 1 }

def setRef (s : BufCache) (b : BufIndex) (n : ℕ) : BufCache :=
  s.setBuf b { s.buf b with refcnt := n }

def setLock (s : BufCache) (b : BufIndex) (o : Option Slot) : BufCache :=
  s.setBuf b { s.buf b with lock := o }

def fill (s : BufCache) (b : BufIndex) : BufCache :=
  s.setBuf b { s.buf b with
    data := s.disk (s.buf b).key
    valid := true }

def setData (s : BufCache) (b : BufIndex) (x : Block) : BufCache :=
  s.setBuf b { s.buf b with data := x }

def flush (s : BufCache) (b : BufIndex) : BufCache :=
  { s with disk := Function.update s.disk (s.buf b).key (s.buf b).data }

/-- **The steps.** -/
inductive BufStep (s : BufCache) : BufLabel → BufCache → Prop
  | hit {j : Slot} {key : BlockKey} {b : BufIndex} (hj : s.calls j = .kernel)
      (hc : s.cached key = some b) :
      BufStep s ⟨j, .bread key⟩ ((s.setRef b ((s.buf b).refcnt + 1)).goto j (.waiting b))
  | recycle {j : Slot} {key : BlockKey} {b : BufIndex} (hj : s.calls j = .kernel)
      (hc : s.cached key = none) (hu : s.unused = some b) :
      BufStep s ⟨j, .bread key⟩ ((s.recycle b key).goto j (.waiting b))
  | acquired {j : Slot} {b : BufIndex} (hj : s.calls j = .waiting b)
      (hl : (s.buf b).lock = none) :
      BufStep s ⟨j, .acquired⟩
        ((s.setLock b (some j)).goto j (if (s.buf b).valid then .kernel else .loading b))
  | loaded {j : Slot} {b : BufIndex} (hj : s.calls j = .loading b) :
      BufStep s ⟨j, .loaded⟩ ((s.fill b).goto j .kernel)
  | store {j : Slot} {b : BufIndex} {x : Block} (hj : s.calls j = .kernel)
      (hl : (s.buf b).lock = some j) : BufStep s ⟨j, .store b x⟩ (s.setData b x)
  | bwrite {j : Slot} {b : BufIndex} (hj : s.calls j = .kernel)
      (hl : (s.buf b).lock = some j) : BufStep s ⟨j, .bwrite b⟩ (s.flush b)
  | brelse {j : Slot} {b : BufIndex} (hj : s.calls j = .kernel)
      (hl : (s.buf b).lock = some j) :
      BufStep s ⟨j, .brelse b⟩ ((s.setLock b none).goto j (.releasing b))
  | released {j : Slot} {b : BufIndex} (hj : s.calls j = .releasing b) :
      BufStep s ⟨j, .released⟩ ((s.dropRef b).goto j .kernel)
  | bpin {j : Slot} {b : BufIndex} (hj : s.calls j = .kernel) :
      BufStep s ⟨j, .bpin b⟩ (s.setRef b ((s.buf b).refcnt + 1))
  | bunpin {j : Slot} {b : BufIndex} (hj : s.calls j = .kernel) :
      BufStep s ⟨j, .bunpin b⟩ (s.setRef b ((s.buf b).refcnt - 1))

theorem bget_inv {r : BufCache × BufIndex} (h : s.bget key = some r) :
    (s.cached key = some r.2 ∧ r.1 = s.setRef r.2 ((s.buf r.2).refcnt + 1)) ∨
      (s.cached key = none ∧ s.unused = some r.2 ∧ r.1 = s.recycle r.2 key) := by
  unfold bget at h
  split at h
  · rename_i b hc
    obtain rfl := Option.some.inj h
    exact Or.inl ⟨hc, rfl⟩
  · rename_i hc
    split at h
    · rename_i b hu
      obtain rfl := Option.some.inj h
      exact Or.inr ⟨hc, hu, rfl⟩
    · cases h

theorem step_inv (h : s.step a = some t) : BufStep s a t := by
  obtain ⟨j, op⟩ := a
  unfold step at h
  dsimp only at h
  split at h
  · rename_i key hj
    obtain ⟨r, hr, rfl⟩ := Option.map_eq_some_iff.1 h
    rcases bget_inv hr with ⟨hc, he⟩ | ⟨hc, hu, he⟩
    · rw [he]
      exact .hit hj hc
    · rw [he]
      exact .recycle hj hc hu
  · rename_i b hj
    split at h <;> [skip; cases h]
    rename_i hl
    obtain rfl := Option.some.inj h
    exact .acquired hj hl
  · rename_i b hj
    obtain rfl := Option.some.inj h
    exact .loaded hj
  · rename_i b x hj
    split at h <;> [skip; cases h]
    rename_i hl
    obtain rfl := Option.some.inj h
    exact .store hj hl
  · rename_i b hj
    split at h <;> [skip; cases h]
    rename_i hl
    obtain rfl := Option.some.inj h
    exact .bwrite hj hl
  · rename_i b hj
    split at h <;> [skip; cases h]
    rename_i hl
    obtain rfl := Option.some.inj h
    exact .brelse hj hl
  · rename_i b hj
    obtain rfl := Option.some.inj h
    exact .released hj
  · rename_i b hj
    obtain rfl := Option.some.inj h
    exact .bpin hj
  · rename_i b hj
    obtain rfl := Option.some.inj h
    exact .bunpin hj
  · cases h

/-! ### The invariant -/

/-- **The invariant of the cache.** -/
structure BufInv (s : BufCache) : Prop where
  order : ∃ l, InOrder s l
  keys : ∀ a b, (s.buf a).dev ≠ 0 → (s.buf a).key = (s.buf b).key → a = b
  validDev : ∀ b, (s.buf b).valid = true → (s.buf b).dev ≠ 0
  refDev : ∀ b, (s.buf b).refcnt ≠ 0 → (s.buf b).dev ≠ 0
  loading : ∀ j b, s.calls j = .loading b → (s.buf b).lock = some j ∧ (s.buf b).valid = false
  locked : ∀ j b, (s.buf b).lock = some j → (s.buf b).valid = true ∨ s.calls j = .loading b
  users : ∀ b, s.users b ≤ (s.buf b).refcnt
  clean : ∀ b, (s.buf b).valid = true → (s.buf b).lock = none → ¬s.Pinned b →
    (s.buf b).data = s.disk (s.buf b).key

/-- The blocks that the processes see in `s`. -/
structure Shows (s : BufCache) (σ : Cells) : Prop where
  cached : ∀ b, (s.buf b).valid = true → σ.current (s.buf b).key = (s.buf b).data
  disk : ∀ k, (∀ b, (s.buf b).valid = true → (s.buf b).key ≠ k) → σ.current k = s.disk k
  owner : ∀ b j, (s.buf b).valid = true → (s.buf b).lock = some j →
    σ.owner (s.buf b).key = some j
  free : ∀ k, (∀ b, (s.buf b).valid = true → (s.buf b).lock ≠ none → (s.buf b).key ≠ k) →
    σ.owner k = none

theorem binit_inv (disk : BlockKey → Block) : BufInv (.binit disk) := by
  obtain ⟨hb, -, hc⟩ := binit_frame disk
  refine ⟨⟨_, inOrder_binit disk⟩, ?_, ?_, ?_, ?_, ?_, ?_, ?_⟩
  · intro a b hdev
    rw [hb] at hdev
    exact absurd rfl hdev
  · intro b hv
    rw [hb] at hv
    cases hv
  · intro b hr
    rw [hb] at hr
    exact absurd rfl hr
  · intro j b hj
    rw [hc] at hj
    cases hj
  · intro j b hl
    rw [hb] at hl
    cases hl
  · intro b
    unfold users
    rw [hb, hc]
    simp only [uses_kernel, Finset.sum_const_zero]
    exact le_refl _
  · intro b hv
    rw [hb] at hv
    cases hv

theorem binit_shows (disk : BlockKey → Block) :
    Shows (.binit disk) ⟨disk, fun _ => none⟩ := by
  obtain ⟨hb, hd, -⟩ := binit_frame disk
  refine ⟨?_, ?_, ?_, fun _ _ => rfl⟩
  · intro b hv
    rw [hb] at hv
    cases hv
  · intro k _
    rw [hd]
  · intro b j hv
    rw [hb] at hv
    cases hv

/-! ### What a step leaves -/

/-- A buffer that nobody uses is not locked. -/
theorem BufInv.unlocked (h : BufInv s) (hr : (s.buf b).refcnt = 0) :
    (s.buf b).lock = none ∧ ¬s.Pinned b := by
  have hu := h.users b
  constructor
  · by_contra hl
    have hp := users_pos_of_lock hl
    omega
  · unfold Pinned
    omega

/-- A buffer that a process waits for, or drops, has a reference. -/
theorem BufInv.referenced (h : BufInv s) (hj : 0 < (s.calls j).uses b) :
    (s.buf b).refcnt ≠ 0 := by
  have hu := h.users b
  have hle := uses_le_users s j b
  omega

theorem dropRef_frame (s : BufCache) (b : BufIndex) :
    (s.dropRef b).buf = (s.setRef b ((s.buf b).refcnt - 1)).buf ∧
      (s.dropRef b).disk = s.disk ∧ (s.dropRef b).calls = s.calls := by
  unfold dropRef
  dsimp only
  split <;> exact ⟨rfl, rfl, rfl⟩

theorem dropRef_inOrder (h : InOrder s l) (b : BufIndex) :
    InOrder (s.dropRef b) (if (s.buf b).refcnt - 1 = 0 then moveFront l b else l) := by
  unfold dropRef
  dsimp only
  rw [setBuf_self]
  dsimp only
  by_cases h0 : (s.buf b).refcnt - 1 = 0
  · rw [if_pos h0, if_pos h0]
    exact InOrder.moved (s := s.setBuf b _) ⟨h.ring, h.all⟩ b
  · rw [if_neg h0, if_neg h0]
    exact ⟨h.ring, h.all⟩

/-- From `s` to `t`, process `j` goes on, and of the buffers only `b` changes, which keeps its
block. -/
structure Change (j : Slot) (b : BufIndex) (s t : BufCache) : Prop where
  order : ∃ l, InOrder t l
  buf : ∀ x, x ≠ b → t.buf x = s.buf x
  calls : ∀ i, i ≠ j → t.calls i = s.calls i
  disk : ∀ k, k ≠ (s.buf b).key → t.disk k = s.disk k
  key : (t.buf b).dev = (s.buf b).dev ∧ (t.buf b).blockno = (s.buf b).blockno
  users : ∀ x, x ≠ b → t.users x = s.users x
  loading : ∀ x, x ≠ b → (t.calls j = .loading x ↔ s.calls j = .loading x)

/-- Such a change, from what becomes of the buffer and of the process. -/
theorem Change.of {y : Buf} {c : BufCall} (ho : ∃ l, InOrder t l)
    (hb : t.buf = Function.update s.buf b y) (hc : t.calls = Function.update s.calls j c)
    (hdisk : ∀ k, k ≠ (s.buf b).key → t.disk k = s.disk k)
    (hy : y.dev = (s.buf b).dev ∧ y.blockno = (s.buf b).blockno)
    (huse : ∀ x, x ≠ b → c.uses x = (s.calls j).uses x)
    (hload : ∀ x, x ≠ b → (c = .loading x ↔ s.calls j = .loading x)) : Change j b s t := by
  have hother : ∀ x, x ≠ b → t.buf x = s.buf x := by
    intro x hx
    rw [hb, Function.update_of_ne hx]
  refine ⟨ho, hother, fun i hi => ?_, hdisk, ?_, fun x hx => ?_, fun x hx => ?_⟩
  · rw [hc, Function.update_of_ne hi]
  · rw [hb, Function.update_self]
    exact hy
  · have hu := users_change hc x
    rw [huse x hx, hother x hx] at hu
    omega
  · rw [hc, Function.update_self]
    exact hload x hx

theorem Change.key_eq (h : Change j b s t) (x : BufIndex) : (t.buf x).key = (s.buf x).key := by
  by_cases hx : x = b
  · subst hx
    exact Prod.ext h.key.1 h.key.2
  · rw [h.buf x hx]

/-- **The invariant behind a change**, from what holds of the buffer that changes. -/
theorem Change.inv (hc : Change j b s t) (h : BufInv s)
    (hv : (t.buf b).valid = true → (s.buf b).dev ≠ 0)
    (hr : (t.buf b).refcnt ≠ 0 → (s.buf b).dev ≠ 0)
    (hload : ∀ i, t.calls i = .loading b → (t.buf b).lock = some i ∧ (t.buf b).valid = false)
    (hlock : ∀ i, (t.buf b).lock = some i → (t.buf b).valid = true ∨ t.calls i = .loading b)
    (hu : t.users b ≤ (t.buf b).refcnt)
    (hclean : (t.buf b).valid = true → (t.buf b).lock = none → ¬t.Pinned b →
      (t.buf b).data = t.disk (t.buf b).key) : BufInv t := by
  have hdev : ∀ x, (t.buf x).dev = (s.buf x).dev := fun x => congrArg Prod.fst (hc.key_eq x)
  have hcall : ∀ i x, x ≠ b → (t.calls i = .loading x ↔ s.calls i = .loading x) := by
    intro i x hx
    by_cases hi : i = j
    · rw [hi]
      exact hc.loading x hx
    · rw [hc.calls i hi]
  refine ⟨hc.order, ?_, ?_, ?_, ?_, ?_, ?_, ?_⟩
  · intro a c hd he
    rw [hdev] at hd
    rw [hc.key_eq, hc.key_eq] at he
    exact h.keys a c hd he
  · intro x hx
    rw [hdev]
    by_cases hxb : x = b
    · rw [hxb] at hx ⊢
      exact hv hx
    · rw [hc.buf x hxb] at hx
      exact h.validDev x hx
  · intro x hx
    rw [hdev]
    by_cases hxb : x = b
    · rw [hxb] at hx ⊢
      exact hr hx
    · rw [hc.buf x hxb] at hx
      exact h.refDev x hx
  · intro i x hx
    by_cases hxb : x = b
    · rw [hxb] at hx ⊢
      exact hload i hx
    · rw [hc.buf x hxb]
      exact h.loading i x ((hcall i x hxb).1 hx)
  · intro i x hx
    by_cases hxb : x = b
    · rw [hxb] at hx ⊢
      exact hlock i hx
    · rw [hc.buf x hxb] at hx ⊢
      rw [hcall i x hxb]
      exact h.locked i x hx
  · intro x
    by_cases hxb : x = b
    · rw [hxb]
      exact hu
    · rw [hc.users x hxb, hc.buf x hxb]
      exact h.users x
  · intro x hx hl hp
    by_cases hxb : x = b
    · rw [hxb] at hx hl hp ⊢
      exact hclean hx hl hp
    · have hkey := hc.key_eq x
      unfold Pinned at hp
      rw [hc.buf x hxb] at hx hl hp ⊢
      rw [hc.users x hxb] at hp
      rw [hc.disk, h.clean x hx hl hp]
      intro he
      exact hxb (h.keys x b (h.validDev x hx) he)

/-- **Nothing is shown**, and the processes see what they saw. -/
theorem Shows.silent {σ : Cells} (h : Shows s σ)
    (hkey : ∀ b, (t.buf b).key = (s.buf b).key) (hv : ∀ b, (t.buf b).valid = (s.buf b).valid)
    (hd : ∀ b, (s.buf b).valid = true → (t.buf b).data = (s.buf b).data)
    (hl : ∀ b, (s.buf b).valid = true → (t.buf b).lock = (s.buf b).lock)
    (hdisk : ∀ k, (∀ b, (s.buf b).valid = true → (s.buf b).key ≠ k) → t.disk k = s.disk k) :
    Shows t σ := by
  refine ⟨fun b hb => ?_, fun k hk => ?_, fun b j hb hj => ?_, fun k hk => ?_⟩
  · rw [hv] at hb
    rw [hkey, hd b hb]
    exact h.cached b hb
  · have hno : ∀ b, (s.buf b).valid = true → (s.buf b).key ≠ k := by
      intro b hb
      rw [← hkey]
      exact hk b ((hv b).trans hb)
    rw [hdisk k hno]
    exact h.disk k hno
  · rw [hv] at hb
    rw [hl b hb] at hj
    rw [hkey]
    exact h.owner b j hb hj
  · refine h.free k fun b hb hj => ?_
    rw [← hkey]
    refine hk b ((hv b).trans hb) ?_
    rw [hl b hb]
    exact hj

/-! ### The steps keep the invariant -/

variable {c : BufCall} {y : Buf} {n : ℕ}

/-- A step that leaves the links. -/
theorem BufInv.order_of (h : BufInv s) (hn : t.next = s.next) (hp : t.prev = s.prev) :
    ∃ l, InOrder t l := by
  obtain ⟨l, hl⟩ := h.order
  refine ⟨l, ?_, hl.all⟩
  rw [hn, hp]
  exact hl.ring

theorem calls_stay (s : BufCache) (j : Slot) : s.calls = Function.update s.calls j (s.calls j) :=
  (Function.update_eq_self j s.calls).symm

theorem waiting_uses_ne (hx : x ≠ b) : (BufCall.waiting b).uses x = 0 := by
  rw [uses_waiting, if_neg (Ne.symm hx)]

theorem releasing_uses_ne (hx : x ≠ b) : (BufCall.releasing b).uses x = 0 := by
  rw [uses_releasing, if_neg (Ne.symm hx)]

/-- A cached block gets one more reference and one more user. -/
theorem inv_hit (h : BufInv s) (hj : s.calls j = .kernel) (hdev : (s.buf b).dev ≠ 0) :
    BufInv ((s.setRef b ((s.buf b).refcnt + 1)).goto j (.waiting b)) := by
  have hc : Change j b s ((s.setRef b ((s.buf b).refcnt + 1)).goto j (.waiting b)) := by
    refine .of (h.order_of rfl rfl) rfl rfl (fun _ _ => rfl) ⟨rfl, rfl⟩ (fun x hx => ?_)
      fun x hx => ?_
    · rw [hj, waiting_uses_ne hx, uses_kernel]
    · rw [hj]
      constructor <;> exact fun he => BufCall.noConfusion he
  have hb : ((s.setRef b ((s.buf b).refcnt + 1)).goto j (.waiting b)).buf b =
      { s.buf b with refcnt := (s.buf b).refcnt + 1 } := setBuf_self
  have hu := users_change (s := s)
    (t := (s.setRef b ((s.buf b).refcnt + 1)).goto j (.waiting b)) rfl b
  rw [hb, hj, uses_kernel, uses_waiting, if_pos rfl] at hu
  have hle := h.users b
  have hcall : ∀ i, ((s.setRef b ((s.buf b).refcnt + 1)).goto j (.waiting b)).calls i =
      .loading b ↔ s.calls i = .loading b := by
    intro i
    by_cases hi : i = j
    · rw [hi, goto_self, hj]
      constructor <;> exact fun he => BufCall.noConfusion he
    · rw [goto_ne hi]
      rfl
  refine hc.inv h ?_ ?_ ?_ ?_ ?_ ?_
  · exact fun _ => hdev
  · exact fun _ => hdev
  · intro i hi
    rw [hb]
    exact h.loading i b ((hcall i).1 hi)
  · intro i hi
    rw [hb] at hi ⊢
    rw [hcall]
    exact h.locked i b hi
  · rw [hb]
    dsimp only at hu ⊢
    omega
  · intro hv hl hp
    unfold Pinned at hp
    rw [hb] at hv hl hp ⊢
    refine h.clean b hv hl ?_
    unfold Pinned
    dsimp only at hu hp
    omega

/-- A process gets the lock of the buffer that it waits for. -/
theorem inv_acquired (h : BufInv s) (hj : s.calls j = .waiting b) (hl : (s.buf b).lock = none)
    (hc : c = if (s.buf b).valid then .kernel else .loading b) :
    BufInv ((s.setLock b (some j)).goto j c) := by
  have hcuse : ∀ x, c.uses x = 0 := by
    intro x
    rw [hc]
    split <;> rfl
  have hcload : ∀ x, c = .loading x ↔ x = b ∧ (s.buf b).valid = false := by
    intro x
    rw [hc]
    cases (s.buf b).valid with
    | true => exact ⟨fun he => BufCall.noConfusion he, fun he => Bool.noConfusion he.2⟩
    | false =>
      exact ⟨fun he => ⟨(BufCall.loading.inj he).symm, rfl⟩, fun he => by rw [he.1]; rfl⟩
  have hch : Change j b s ((s.setLock b (some j)).goto j c) := by
    refine .of (h.order_of rfl rfl) rfl rfl (fun _ _ => rfl) ⟨rfl, rfl⟩ (fun x hx => ?_)
      fun x hx => ?_
    · rw [hj, hcuse, waiting_uses_ne hx]
    · rw [hj, hcload]
      exact ⟨fun he => absurd he.1 hx, fun he => BufCall.noConfusion he⟩
  have hb : ((s.setLock b (some j)).goto j c).buf b = { s.buf b with lock := some j } := setBuf_self
  have hu := users_change (s := s) (t := (s.setLock b (some j)).goto j c) rfl b
  rw [hb, hj, hcuse, uses_waiting, if_pos rfl, hl, if_pos rfl, if_neg (Option.some_ne_none j)] at hu
  have hle := h.users b
  have hdev : (s.buf b).dev ≠ 0 := by
    refine h.refDev b (h.referenced (j := j) ?_)
    rw [hj, uses_waiting, if_pos rfl]
    exact Nat.one_pos
  refine hch.inv h (fun _ => hdev) (fun _ => hdev) ?_ ?_ ?_ ?_
  · intro i hi
    rw [hb]
    by_cases hij : i = j
    · rw [hij, goto_self, hcload] at hi
      exact ⟨by rw [hij], hi.2⟩
    · rw [goto_ne hij] at hi
      have hli := (h.loading i b hi).1
      rw [hl] at hli
      cases hli
  · intro i hi
    rw [hb] at hi ⊢
    obtain rfl := Option.some.inj hi
    rw [goto_self, hcload]
    cases (s.buf b).valid with
    | true => exact Or.inl rfl
    | false => exact Or.inr ⟨rfl, rfl⟩
  · rw [hb]
    dsimp only at hu ⊢
    omega
  · intro _ hn
    rw [hb] at hn
    cases hn

/-- The disk answers. -/
theorem inv_loaded (h : BufInv s) (hj : s.calls j = .loading b) :
    BufInv ((s.fill b).goto j .kernel) := by
  obtain ⟨hl, -⟩ := h.loading j b hj
  have hch : Change j b s ((s.fill b).goto j .kernel) := by
    refine .of (h.order_of rfl rfl) rfl rfl (fun _ _ => rfl) ⟨rfl, rfl⟩ (fun x _ => ?_)
      fun x hx => ?_
    · rw [hj]
      rfl
    · rw [hj]
      exact ⟨fun he => BufCall.noConfusion he, fun he => absurd (BufCall.loading.inj he).symm hx⟩
  have hb : ((s.fill b).goto j .kernel).buf b =
      { s.buf b with data := s.disk (s.buf b).key, valid := true } := setBuf_self
  have hu := users_change (s := s) (t := (s.fill b).goto j .kernel) rfl b
  rw [hb, hj, uses_loading, uses_kernel] at hu
  dsimp only at hu
  have hle := h.users b
  have hdev : (s.buf b).dev ≠ 0 := by
    refine h.refDev b ?_
    have hp := users_pos_of_lock (s := s) (x := b) (by rw [hl]; exact Option.some_ne_none j)
    omega
  refine hch.inv h (fun _ => hdev) (fun _ => hdev) ?_ ?_ ?_ ?_
  · intro i hi
    by_cases hij : i = j
    · rw [hij, goto_self] at hi
      cases hi
    · rw [goto_ne hij] at hi
      have hli := (h.loading i b hi).1
      rw [hl] at hli
      exact absurd (Option.some.inj hli).symm hij
  · intro i _
    rw [hb]
    exact Or.inl rfl
  · rw [hb]
    dsimp only
    omega
  · intro _ hn
    rw [hb] at hn
    dsimp only at hn
    rw [hl] at hn
    cases hn

/-- The holder of a buffer changes it, or its references. -/
theorem inv_held (h : BufInv s) (hl : (s.buf b).lock = some j) (hy : y.lock = some j)
    (hkey : y.dev = (s.buf b).dev ∧ y.blockno = (s.buf b).blockno)
    (hv : y.valid = (s.buf b).valid) (hr : s.users b ≤ y.refcnt) :
    BufInv (s.setBuf b y) := by
  have hch : Change j b s (s.setBuf b y) :=
    .of (h.order_of rfl rfl) rfl (calls_stay s j) (fun _ _ => rfl) hkey (fun _ _ => rfl)
      fun _ _ => Iff.rfl
  have hu : (s.setBuf b y).users b = s.users b := by
    refine users_congr rfl ?_
    rw [setBuf_self, hy, hl]
  have hdev : (s.buf b).dev ≠ 0 := by
    refine h.refDev b ?_
    have hp := users_pos_of_lock (s := s) (x := b) (by rw [hl]; exact Option.some_ne_none j)
    have hle := h.users b
    omega
  refine hch.inv h (fun _ => hdev) (fun _ => hdev) ?_ ?_ ?_ ?_
  · intro i hi
    rw [setBuf_self, hv, hy]
    rw [← hl]
    exact h.loading i b hi
  · intro i hi
    rw [setBuf_self] at hi ⊢
    rw [hv]
    rw [hy, ← hl] at hi
    exact h.locked i b hi
  · rw [hu, setBuf_self]
    exact hr
  · intro _ hn
    rw [setBuf_self, hy] at hn
    cases hn

/-- The holder of a buffer writes it to the disk. -/
theorem inv_bwrite (h : BufInv s) (hl : (s.buf b).lock = some j) : BufInv (s.flush b) := by
  have hch : Change j b s (s.flush b) :=
    .of (y := s.buf b) (h.order_of rfl rfl) (Function.update_eq_self b s.buf).symm (calls_stay s j)
      (fun k hk => Function.update_of_ne hk ..) ⟨rfl, rfl⟩ (fun _ _ => rfl) fun _ _ => Iff.rfl
  refine hch.inv h (h.validDev b) (h.refDev b) (fun i => h.loading i b) (fun i => h.locked i b)
    (h.users b) ?_
  intro _ hn
  change (s.buf b).lock = none at hn
  rw [hl] at hn
  cases hn

/-- The holder of a buffer gives its lock back. -/
theorem inv_brelse (h : BufInv s) (hj : s.calls j = .kernel) (hl : (s.buf b).lock = some j)
    (hok : s.Pinned b ∨ (s.buf b).data = s.disk (s.buf b).key) :
    BufInv ((s.setLock b none).goto j (.releasing b)) := by
  have hvalid : (s.buf b).valid = true := by
    refine (h.locked j b hl).resolve_right fun he => ?_
    rw [hj] at he
    cases he
  have hch : Change j b s ((s.setLock b none).goto j (.releasing b)) := by
    refine .of (h.order_of rfl rfl) rfl rfl (fun _ _ => rfl) ⟨rfl, rfl⟩ (fun x hx => ?_)
      fun x hx => ?_
    · rw [hj, releasing_uses_ne hx, uses_kernel]
    · rw [hj]
      constructor <;> exact fun he => BufCall.noConfusion he
  have hb : ((s.setLock b none).goto j (.releasing b)).buf b = { s.buf b with lock := none } :=
    setBuf_self
  have hu := users_change (s := s) (t := (s.setLock b none).goto j (.releasing b)) rfl b
  rw [hb, hj, uses_kernel, uses_releasing, if_pos rfl, hl, if_neg (Option.some_ne_none j),
    if_pos rfl] at hu
  have hle := h.users b
  refine hch.inv h (fun _ => h.validDev b hvalid) (fun _ => h.validDev b hvalid) ?_ ?_ ?_ ?_
  · intro i hi
    by_cases hij : i = j
    · rw [hij, goto_self] at hi
      cases hi
    · rw [goto_ne hij] at hi
      have hv := (h.loading i b hi).2
      rw [hvalid] at hv
      cases hv
  · intro i hi
    rw [hb] at hi
    cases hi
  · rw [hb]
    dsimp only at hu ⊢
    omega
  · intro _ _ hp
    unfold Pinned at hp
    rw [hb] at hp ⊢
    refine hok.resolve_left fun hpin => ?_
    unfold Pinned at hpin
    dsimp only at hu hp
    omega

/-- A reference is dropped. -/
theorem inv_released (h : BufInv s) (hj : s.calls j = .releasing b) :
    BufInv ((s.dropRef b).goto j .kernel) := by
  obtain ⟨hbuf, hdisk, hcalls⟩ := dropRef_frame s b
  have huse : 0 < (s.calls j).uses b := by
    rw [hj, uses_releasing, if_pos rfl]
    exact Nat.one_pos
  have hb : ((s.dropRef b).goto j .kernel).buf b =
      { s.buf b with refcnt := (s.buf b).refcnt - 1 } := by
    change (s.dropRef b).buf b = _
    rw [hbuf]
    exact setBuf_self
  have hcl : ((s.dropRef b).goto j .kernel).calls = Function.update s.calls j .kernel := by
    change Function.update (s.dropRef b).calls j .kernel = _
    rw [hcalls]
  have hch : Change j b s ((s.dropRef b).goto j .kernel) := by
    obtain ⟨l, hl⟩ := h.order
    have ho := dropRef_inOrder hl b
    refine .of ⟨_, ho.ring, ho.all⟩ hbuf hcl (fun k _ => ?_) ⟨rfl, rfl⟩ (fun x hx => ?_)
      fun x hx => ?_
    · change (s.dropRef b).disk k = _
      rw [hdisk]
    · rw [hj, releasing_uses_ne hx, uses_kernel]
    · rw [hj]
      constructor <;> exact fun he => BufCall.noConfusion he
  have hu := users_change hcl b
  rw [hb, hj, uses_kernel, uses_releasing, if_pos rfl] at hu
  dsimp only at hu
  have hle := h.users b
  have hpos := uses_le_users s j b
  have hdev : (s.buf b).dev ≠ 0 := h.refDev b (h.referenced huse)
  have hcall : ∀ i, ((s.dropRef b).goto j .kernel).calls i = .loading b → s.calls i = .loading b := by
    intro i hi
    by_cases hij : i = j
    · rw [hij, goto_self] at hi
      cases hi
    · rw [goto_ne hij, hcalls] at hi
      exact hi
  refine hch.inv h (fun _ => hdev) (fun _ => hdev) ?_ ?_ ?_ ?_
  · intro i hi
    rw [hb]
    exact h.loading i b (hcall i hi)
  · intro i hi
    rw [hb] at hi ⊢
    refine (h.locked i b hi).imp_right fun hli => ?_
    have hij : i ≠ j := by
      rintro rfl
      rw [hj] at hli
      cases hli
    rw [goto_ne hij, hcalls]
    exact hli
  · rw [hb]
    dsimp only
    omega
  · intro hv hl hp
    unfold Pinned at hp
    change _ = (s.dropRef b).disk _
    rw [hb] at hv hl hp ⊢
    rw [hdisk]
    refine h.clean b hv hl ?_
    unfold Pinned
    dsimp only at hp
    omega

/-- **A buffer goes to another block.** -/
theorem inv_recycle (h : BufInv s) (hj : s.calls j = .kernel) (hdev : key.1 ≠ 0)
    (hno : ∀ x, (s.buf x).key ≠ key) (hr : (s.buf b).refcnt = 0) :
    BufInv ((s.recycle b key).goto j (.waiting b)) := by
  obtain ⟨hlock, -⟩ := h.unlocked hr
  have hb : ((s.recycle b key).goto j (.waiting b)).buf b =
      { s.buf b with dev := key.1, blockno := key.2, valid := false, refcnt := 1 } := setBuf_self
  have hother : ∀ x, x ≠ b → ((s.recycle b key).goto j (.waiting b)).buf x = s.buf x :=
    fun x hx => setBuf_ne hx
  have hu : ∀ x, ((s.recycle b key).goto j (.waiting b)).users x =
      s.users x + if b = x then 1 else 0 := by
    intro x
    have hux := users_change (s := s) (t := (s.recycle b key).goto j (.waiting b)) rfl x
    rw [hj, uses_kernel, uses_waiting] at hux
    by_cases hx : x = b
    · subst hx
      rw [hb, if_pos rfl] at hux
      dsimp only at hux
      rw [if_pos rfl]
      omega
    · rw [hother x hx] at hux
      omega
  have hcall : ∀ i x, ((s.recycle b key).goto j (.waiting b)).calls i = .loading x ↔
      s.calls i = .loading x := by
    intro i x
    by_cases hi : i = j
    · rw [hi, goto_self, hj]
      constructor <;> exact fun he => BufCall.noConfusion he
    · rw [goto_ne hi]
      rfl
  have hkb : (((s.recycle b key).goto j (.waiting b)).buf b).key = key := by rw [hb]; rfl
  have hle := h.users b
  refine ⟨h.order_of rfl rfl, ?_, ?_, ?_, ?_, ?_, ?_, ?_⟩
  · intro x z hd he
    by_cases hx : x = b
    · by_cases hz : z = b
      · exact hx.trans hz.symm
      · rw [hx, hkb, hother z hz] at he
        exact absurd he.symm (hno z)
    · by_cases hz : z = b
      · rw [hz, hkb, hother x hx] at he
        exact absurd he (hno x)
      · rw [hother x hx] at hd he
        rw [hother z hz] at he
        exact h.keys x z hd he
  · intro x hx
    by_cases hxb : x = b
    · rw [hxb, hb] at hx
      cases hx
    · rw [hother x hxb] at hx ⊢
      exact h.validDev x hx
  · intro x hx
    by_cases hxb : x = b
    · rw [hxb, hb]
      exact hdev
    · rw [hother x hxb] at hx ⊢
      exact h.refDev x hx
  · intro i x hi
    have hli := h.loading i x ((hcall i x).1 hi)
    have hxb : x ≠ b := by
      rintro rfl
      rw [hlock] at hli
      cases hli.1
    rw [hother x hxb]
    exact hli
  · intro i x hi
    have hxb : x ≠ b := by
      rintro rfl
      rw [hb] at hi
      dsimp only at hi
      rw [hlock] at hi
      cases hi
    rw [hother x hxb] at hi ⊢
    rw [hcall]
    exact h.locked i x hi
  · intro x
    rw [hu x]
    by_cases hxb : x = b
    · rw [hxb, hb, if_pos rfl]
      dsimp only
      omega
    · rw [hother x hxb, if_neg (Ne.symm hxb), Nat.add_zero]
      exact h.users x
  · intro x hv hl hp
    by_cases hxb : x = b
    · rw [hxb, hb] at hv
      cases hv
    · unfold Pinned at hp
      rw [hu x, if_neg (Ne.symm hxb), Nat.add_zero] at hp
      rw [hother x hxb] at hv hl hp ⊢
      exact h.clean x hv hl hp

/-- **Every step keeps the invariant.** -/
theorem inv_step (h : BufInv s) (hok : s.UsedWell a) (hn : s.step a = some t) : BufInv t := by
  obtain ⟨l, hl⟩ := h.order
  cases step_inv hn with
  | @hit j key b hj hc =>
    have hdev : (s.buf b).dev ≠ 0 := by
      rcases cached_cases hl key with ⟨hno, -⟩ | ⟨b', hb', hk⟩
      · rw [hc] at hno
        cases hno
      · rw [hc] at hb'
        obtain rfl := Option.some.inj hb'
        rw [show (s.buf b).dev = key.1 from congrArg Prod.fst hk]
        exact hok
    exact inv_hit h hj hdev
  | @recycle j key b hj hc hu =>
    have hno : ∀ x, (s.buf x).key ≠ key := by
      rcases cached_cases hl key with ⟨-, hno⟩ | ⟨b', hb', -⟩
      · exact hno
      · rw [hc] at hb'
        cases hb'
    have hr : (s.buf b).refcnt = 0 := by
      rcases unused_cases hl with ⟨hn, -⟩ | ⟨l₁, b', l₂, -, hb', hr, -⟩
      · rw [hu] at hn
        cases hn
      · rw [hu] at hb'
        rw [Option.some.inj hb']
        exact hr
    exact inv_recycle h hj hok hno hr
  | acquired hj hlk => exact inv_acquired h hj hlk rfl
  | loaded hj => exact inv_loaded h hj
  | store hj hlk => exact inv_held h hlk hlk ⟨rfl, rfl⟩ rfl (h.users _)
  | bwrite hj hlk => exact inv_bwrite h hlk
  | brelse hj hlk => exact inv_brelse h hj hlk hok
  | released hj => exact inv_released h hj
  | bpin hj => exact inv_held h hok hok ⟨rfl, rfl⟩ rfl (Nat.le_succ_of_le (h.users _))
  | bunpin hj => exact inv_held h hok.1 hok.1 ⟨rfl, rfl⟩ rfl (Nat.le_sub_one_of_lt hok.2)

end BufCache

end AgentOS
