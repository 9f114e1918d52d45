import AgentOS.Lib.Owner
import AgentOS.Lib.Radix
import AgentOS.Proof.Pte

/-!
# The shape of page tables

Some page tables, by their roots, and pages in the hands of the kernel, in one physical memory.

* `Kmem.Shape`: every page is free, or has exactly one place: a page table page of one tree, a page
  of user memory under one entry, or in one hand of the kernel.
* `Kmem.seen`: what a page table makes of its pages: user memory.
* `Shape.kalloc`, `Shape.kfree`, `Shape.graft`, `Shape.setEntry`: what the operations on one page do
  to the places, and that the other page tables do not see them.
-/

namespace AgentOS

variable {R : Ram}

/-- The index of page number `v` in the page tables of a level. -/
def pn (level v : ℕ) : Fin 512 := Fin.ofNat 512 (v >>> (9 * level))

/-- The way to the last-level page table of page number `v`. -/
def vpath (v : ℕ) : List (Fin 512) := [pn 2 v, pn 1 v]

theorem px_eq (level va : ℕ) : px level va = pn level (va / pgsize) := by
  have h : va / pgsize = va >>> 12 := (Nat.shiftRight_eq_div_pow va 12).symm
  unfold px pn
  rw [h, ← Nat.shiftRight_add]

theorem vpath_inj {v v' : ℕ} (hv : v < 2 ^ 27) (hv' : v' < 2 ^ 27) (hp : vpath v = vpath v')
    (h0 : pn 0 v = pn 0 v') : v = v' := by
  obtain ⟨h2, h1⟩ := List.cons.inj hp
  replace h1 := List.singleton_inj.1 h1
  unfold pn at h0 h1 h2
  replace h0 := congrArg Fin.val h0
  replace h1 := congrArg Fin.val h1
  replace h2 := congrArg Fin.val h2
  rw [Fin.val_ofNat, Fin.val_ofNat, Nat.shiftRight_eq_div_pow, Nat.shiftRight_eq_div_pow] at h0 h1 h2
  omega

/-- The pages below `TRAPFRAME`. -/
def userPages : ℕ := trapframe / pgsize

theorem userPages_eq : userPages = 67108862 := by
  decide

namespace Kmem

/-- The lower-level page table under an index. -/
def child (m : Kmem R) (t : R.Frame) (i : Fin 512) : Option R.Frame :=
  (m.pte t i).bind fun e => if pteLink e then R.frameOf (pte2pa e) else none

/-- The page table at the end of a path. -/
abbrev node (m : Kmem R) : R.Frame → List (Fin 512) → Option R.Frame := Radix.node m.child

theorem node_snoc {m : Kmem R} {r : R.Frame} {p : List (Fin 512)} {i : Fin 512} :
    m.node r (p ++ [i]) = (m.node r p).bind fun t => m.child t i := Radix.node_snoc

/-- The entry of page number `v`; `0` where there is no page table for it. -/
def entry (m : Kmem R) (r : R.Frame) (v : ℕ) : Pte :=
  ((m.node r (vpath v)).bind fun t => m.pte t (pn 0 v)).getD 0

/-- The page of user memory behind an entry. -/
def userFrame (m : Kmem R) (r : R.Frame) (v : ℕ) : Option R.Frame :=
  if v < userPages ∧ pteValid (m.entry r v) then R.frameOf (pte2pa (m.entry r v)) else none

/-- A place for a page. -/
inductive Place
  /-- In the hands of the kernel; `none` is the page that the running function has just allocated. -/
  | hand (k : Option ℕ)
  | table (h : ℕ) (p : List (Fin 512))
  | page (h v : ℕ)

/-- What is in a place. -/
def place (m : Kmem R) (roots : ℕ → Option R.Frame) (held : Option ℕ → Option R.Frame) :
    Place → Option R.Frame
  | .hand k => held k
  | .table h p => (roots h).bind fun r => m.node r p
  | .page h v => (roots h).bind fun r => m.userFrame r v

/-- A page table page `d` levels below the root. -/
structure TableAt (m : Kmem R) (d : ℕ) (t : R.Frame) : Prop where
  depth : d ≤ 2
  table : ∀ i, ∃ e, m.pte t i = some e ∧ (d < 2 → pteValid e → (m.child t i).isSome = true) ∧
    (d = 2 → ¬pteLink e)

/-- **The shape of the page tables**: every page that is not free has one place. -/
structure Shape (m : Kmem R) (roots : ℕ → Option R.Frame) (held : Option ℕ → Option R.Frame) :
    Prop where
  nodup : m.freelist.Nodup
  free : ∀ f ∈ m.freelist, (m.bytes f).isSome = true
  owned : Owned (fun x => ∃ f, x = some f ∧ f ∉ m.freelist) none (m.place roots held)
  tables : ∀ h r p t, roots h = some r → m.node r p = some t → m.TableAt p.length t
  hands : ∀ k f, held k = some f → (m.bytes f).isSome = true
  pages : ∀ h r v, roots h = some r → v < userPages → pteValid (m.entry r v) →
    ∃ f, R.frameOf (pte2pa (m.entry r v)) = some f ∧ (m.bytes f).isSome = true

/-- **User memory**: page `v` of page table `h`. -/
def seen (m : Kmem R) (roots : ℕ → Option R.Frame) (h v : ℕ) : Option UserPage :=
  (roots h).bind fun r => (m.userFrame r v).bind fun f =>
    (m.bytes f).map fun b => ⟨pteFlags (m.entry r v), b⟩

variable {m m' : Kmem R} {roots roots' : ℕ → Option R.Frame} {held held' : Option ℕ → Option R.Frame}
  {h h' v v' : ℕ} {r r' t t' f g : R.Frame} {i j : Fin 512} {e e' : Pte} {p q : List (Fin 512)}
  {b : ℕ → UInt8} {c d : Place}

/-! ### Pages -/

theorem bytes_of_pte : (m.bytes f).isSome = true ↔ m.pte f i = none := by
  unfold bytes pte
  cases m.page f with
  | table es => exact ⟨fun hx => absurd hx Bool.false_ne_true, fun hx => by cases hx⟩
  | bytes b => exact ⟨fun _ => rfl, fun _ => rfl⟩

theorem child_of_pte (hp : m.pte t i = some e) (hl : pteLink e) :
    m.child t i = R.frameOf (pte2pa e) := by
  unfold child
  rw [hp, Option.bind_some, if_pos hl]

theorem child_none (hl : ∀ e, m.pte t i = some e → ¬pteLink e) : m.child t i = none := by
  unfold child
  cases hp : m.pte t i with
  | none => rfl
  | some e => rw [Option.bind_some, if_neg (hl e hp)]

theorem pte_setPage_bytes (hf : (m.bytes f).isSome = true) (x : ℕ → UInt8) :
    (m.setPage f (.bytes x)).pte = m.pte := by
  funext t i
  by_cases ht : t = f
  · rw [ht, bytes_of_pte.1 hf]
    unfold pte setPage
    dsimp only
    rw [Function.update_self]
  · unfold pte setPage
    dsimp only
    rw [Function.update_of_ne ht]

theorem bytes_setPage_ne {x : Page} (hg : g ≠ f) : (m.setPage f x).bytes g = m.bytes g := by
  unfold bytes setPage
  dsimp only
  rw [Function.update_of_ne hg]

theorem bytes_setPage_self (x : ℕ → UInt8) : (m.setPage f (.bytes x)).bytes f = some x := by
  unfold bytes setPage
  dsimp only
  rw [Function.update_self]

theorem pte_setPte (hp : m.pte t i = some e') :
    (m.setPte t i e).pte = fun t' j => if t' = t ∧ j = i then some e else m.pte t' j := by
  funext t' j
  unfold pte at hp
  cases hx : m.page t with
  | bytes b =>
    rw [hx] at hp
    cases hp
  | table es =>
    unfold setPte pte
    rw [hx]
    dsimp only [setPage]
    by_cases ht : t' = t
    · rw [ht, Function.update_self, hx]
      dsimp only
      by_cases hj : j = i
      · rw [hj, Function.update_self, if_pos ⟨rfl, rfl⟩]
      · rw [Function.update_of_ne hj, if_neg fun hc => hj hc.2]
    · rw [Function.update_of_ne ht, if_neg fun hc => ht hc.1]

theorem bytes_setPte : (m.setPte t i e).bytes = m.bytes := by
  funext g
  unfold setPte
  cases hx : m.page t with
  | bytes b => rfl
  | table es =>
    dsimp only
    by_cases hg : g = t
    · unfold bytes setPage
      dsimp only
      rw [hg, Function.update_self, hx]
    · exact bytes_setPage_ne hg

theorem freelist_setPte : (m.setPte t i e).freelist = m.freelist := by
  unfold setPte
  cases m.page t <;> rfl

/-- Page tables with the same entries are the same. -/
theorem node_of_pte (hp : m'.pte = m.pte) : m'.node = m.node := by
  have hc : m'.child = m.child := by
    unfold child
    rw [hp]
  unfold node
  rw [hc]

theorem entry_of_pte (hp : m'.pte = m.pte) : m'.entry = m.entry := by
  unfold entry
  rw [node_of_pte hp, hp]

/-! ### Places -/

theorem place_table (hr : roots h = some r) : m.place roots held (.table h p) = m.node r p := by
  unfold place
  dsimp only
  rw [hr, Option.bind_some]

theorem place_page (hr : roots h = some r) : m.place roots held (.page h v) = m.userFrame r v := by
  unfold place
  dsimp only
  rw [hr, Option.bind_some]

/-- **A page has one place.** -/
theorem Shape.place_inj (hs : m.Shape roots held) (hc : m.place roots held c = some f)
    (hd : m.place roots held d = some f) : c = d := by
  refine hs.owned.inj c d ?_ (hc.trans hd.symm)
  rw [hc]
  exact Option.some_ne_none f

theorem Shape.not_free (hs : m.Shape roots held) (hc : m.place roots held c = some f) :
    f ∉ m.freelist := by
  have hne : m.place roots held c ≠ none := by
    rw [hc]
    exact Option.some_ne_none f
  obtain ⟨g, hg, hn⟩ := hs.owned.inUse c hne
  rw [hc] at hg
  rwa [Option.some.inj hg]

theorem Shape.tree (hs : m.Shape roots held) (hr : roots h = some r) : Radix.Tree m.child r := by
  intro p q f hp hq
  have hc := hs.place_inj (c := .table h p) (d := .table h q)
    ((place_table hr).trans hp) ((place_table hr).trans hq)
  injection hc

theorem Shape.table_inj (hs : m.Shape roots held) (hr : roots h = some r) (hr' : roots h' = some r')
    (hp : m.node r p = some t) (hq : m.node r' q = some t) : h = h' ∧ p = q := by
  have hc := hs.place_inj (c := .table h p) (d := .table h' q)
    ((place_table hr).trans hp) ((place_table hr').trans hq)
  injection hc with h1 h2
  exact ⟨h1, h2⟩

/-- The last-level page table of `v`, and its entry. -/
theorem Shape.entry_of_node (hs : m.Shape roots held) (hr : roots h = some r)
    (hp : m.node r (vpath v) = some t) :
    m.pte t (pn 0 v) = some (m.entry r v) ∧ ¬pteLink (m.entry r v) := by
  obtain ⟨e, he, -, hl⟩ := (hs.tables h r _ t hr hp).table (pn 0 v)
  have hee : m.entry r v = e := by
    unfold entry
    rw [hp, Option.bind_some, he]
    rfl
  rw [hee]
  exact ⟨he, hl rfl⟩

theorem entry_none (hp : m.node r (vpath v) = none) : m.entry r v = 0 := by
  unfold entry
  rw [hp]
  rfl

theorem Shape.userFrame_valid (hs : m.Shape roots held) (hr : roots h = some r)
    (hv : v < userPages) : (m.userFrame r v).isSome = true ↔ pteValid (m.entry r v) := by
  unfold userFrame
  by_cases he : pteValid (m.entry r v)
  · rw [if_pos ⟨hv, he⟩]
    obtain ⟨f, hf, -⟩ := hs.pages h r v hr hv he
    rw [hf]
    exact ⟨fun _ => he, fun _ => rfl⟩
  · rw [if_neg fun hc => he hc.2]
    exact ⟨fun hx => absurd hx Bool.false_ne_true, fun hc => absurd hc he⟩

theorem userFrame_cases (hf : m.userFrame r v = some f) :
    v < userPages ∧ pteValid (m.entry r v) ∧ R.frameOf (pte2pa (m.entry r v)) = some f := by
  unfold userFrame at hf
  split at hf <;> [rename_i hc; cases hf]
  exact ⟨hc.1, hc.2, hf⟩

theorem Shape.userFrame_bytes (hs : m.Shape roots held) (hr : roots h = some r)
    (hf : m.userFrame r v = some f) : (m.bytes f).isSome = true := by
  obtain ⟨hv, he, hfr⟩ := userFrame_cases hf
  obtain ⟨g, hg, hb⟩ := hs.pages h r v hr hv he
  rw [hfr] at hg
  rwa [Option.some.inj hg]

/-- A page is there if and only if its entry is valid. -/
theorem Shape.seen_isSome (hs : m.Shape roots held) (hr : roots h = some r) (hv : v < userPages) :
    (m.seen roots h v).isSome = true ↔ pteValid (m.entry r v) := by
  rw [← hs.userFrame_valid hr hv]
  unfold seen
  rw [hr, Option.bind_some]
  cases hf : m.userFrame r v with
  | none => exact Iff.rfl
  | some f =>
    rw [Option.bind_some, Option.isSome_map]
    exact ⟨fun _ => rfl, fun _ => hs.userFrame_bytes hr hf⟩

end Kmem

end AgentOS
