import AgentOS.Proof.PageRoom
import AgentOS.Proof.PageUser

/-!
# Address spaces are independent

* `vm_refines_spaces`: no run of calls panics, and it makes of the address spaces what the calls make
  of independent ones: a call changes one address space, a new process sees what its parent sees, and
  a call that finds no memory changes nothing. A call for memory fails only when there is too little
  (`Short`).
* `vm_page_places`: in every reachable state a page is free, once, or in exactly one place: a page of
  the kernel, a page table page of one process, or one page of user memory of one process.
* `vm_copyin`, `vm_copyout_copyin`: what the kernel reads from a process is its own memory, and what
  it has written there.
-/

namespace AgentOS

open Kmem

namespace Vm

variable {R : Ram} {s t : Vm R} {h h' k n newsz w : ℕ} {r r' f : R.Frame} {m m' : Kmem R}
  {roots roott : ℕ → Option R.Frame} {flags : BitVec 32} {x : Option Space}

/-- The pages in the hands of the kernel; between calls there is no other. -/
def hands (s : Vm R) : Option ℕ → Option R.Frame := fun k => k.bind s.held

/-- **What holds between calls.** -/
structure Inv (s : Vm R) : Prop where
  shape : s.mem.Shape s.pagetable s.hands
  full : ∀ h r, s.pagetable h = some r → s.mem.Full s.pagetable h (s.sz h)

/-- **The address spaces.** -/
def spaces (s : Vm R) : Spaces := fun h =>
  (s.pagetable h).map fun _ => ⟨s.sz h, s.mem.seen s.pagetable h⟩

theorem hands_update (y : Option R.Frame) :
    Function.update s.hands (some k) y = fun j => j.bind (Function.update s.held k y) := by
  funext j
  cases j with
  | none => exact Function.update_of_ne (Option.some_ne_none k).symm ..
  | some j =>
    unfold hands
    by_cases hj : j = k
    · rw [hj, Function.update_self, Option.bind_some, Function.update_self]
    · rw [Function.update_of_ne fun hc => hj (Option.some.inj hc), Option.bind_some,
        Option.bind_some, Function.update_of_ne hj]

theorem full_congr (hseen : m'.seen roott h = m.seen roots h) (hf : m.Full roots h n) :
    m'.Full roott h n := by
  intro w hw
  rw [hseen]
  exact hf w hw

/-- Behind the size there is nothing. -/
theorem seen_ge (hr : roots h = some r) (hf : m.Full roots h n) (hw : sizePages n ≤ w) :
    m.seen roots h w = none := by
  by_cases hu : w < userPages
  · rw [← Option.not_isSome_iff_eq_none, hf w hu]
    exact Nat.not_lt_of_le hw
  · unfold Kmem.seen
    rw [hr, Option.bind_some, userFrame_ge hu]
    rfl

/-- What a call does that no process sees. -/
theorem Inv.same (hi : s.Inv) (hs : t.mem.Shape t.pagetable t.hands)
    (hp : t.pagetable = s.pagetable) (hz : t.sz = s.sz)
    (hseen : t.mem.seen s.pagetable = s.mem.seen s.pagetable) :
    t.Inv ∧ t.spaces = s.spaces := by
  refine ⟨⟨hs, fun h r hr => ?_⟩, ?_⟩
  · rw [hp] at hr ⊢
    rw [hz]
    exact full_congr (congrFun hseen h) (hi.full h r hr)
  · unfold spaces
    rw [hp, hz, hseen]

/-- What a call does to process `h`. -/
theorem Inv.one (hi : s.Inv) (hs : t.mem.Shape t.pagetable t.hands)
    (hp : ∀ h', h' ≠ h → t.pagetable h' = s.pagetable h')
    (hz : ∀ h', h' ≠ h → t.sz h' = s.sz h')
    (hseen : ∀ h', h' ≠ h → t.mem.seen t.pagetable h' = s.mem.seen s.pagetable h')
    (hfull : ∀ r, t.pagetable h = some r → t.mem.Full t.pagetable h (t.sz h))
    (hx : t.spaces h = x) : t.Inv ∧ t.spaces = Function.update s.spaces h x := by
  refine ⟨⟨hs, fun h' r hr => ?_⟩, funext fun h' => ?_⟩
  · by_cases hh : h' = h
    · subst hh
      exact hfull r hr
    · rw [hp h' hh] at hr
      rw [hz h' hh]
      exact full_congr (hseen h' hh) (hi.full h' r hr)
  · by_cases hh : h' = h
    · rw [hh, Function.update_self, hx]
    · rw [Function.update_of_ne hh]
      unfold spaces
      rw [hp h' hh, hz h' hh, hseen h' hh]

theorem spaces_of (hr : s.pagetable h = some r) :
    s.spaces h = some ⟨s.sz h, s.mem.seen s.pagetable h⟩ := by
  unfold spaces
  rw [hr]
  rfl

theorem spaces_none (hr : s.pagetable h = none) : s.spaces h = none := by
  unfold spaces
  rw [hr]
  rfl

/-- **What a call means.** -/
def Means (s : Vm R) (c : VmCall) : Prop :=
  ∃ ok s', s.call c = some (ok, s') ∧ s'.Inv ∧ s.spaces.answer c ≠ some !ok ∧
    s'.spaces = if ok then s.spaces.succeed c else s.spaces.fail c

theorem Inv.fails (hi : s.Inv) {c : VmCall} (hc : s.call c = some (false, s))
    (ha : s.spaces.answer c ≠ some true) (hf : s.spaces.fail c = s.spaces) : s.Means c :=
  ⟨false, s, hc, hi, ha, hf.symm⟩

theorem some_ne_not {ok : Bool} : some ok ≠ some !ok := by
  cases ok <;> decide

/-! ### The calls -/

theorem kalloc_means (hi : s.Inv) (k : ℕ) : s.Means (.kalloc k) := by
  cases hk : s.held k with
  | some f =>
    refine hi.fails ?_ (Option.some_ne_none _).symm rfl
    unfold call
    dsimp only
    rw [hk]
  | none =>
    cases ha : s.mem.kalloc with
    | none =>
      refine hi.fails ?_ (Option.some_ne_none _).symm rfl
      unfold call
      dsimp only
      rw [hk, ha]
    | some y =>
      obtain ⟨f, m⟩ := y
      obtain ⟨hs, hx, -⟩ := hi.shape.kalloc (k := some k) hk ha
      rw [hands_update] at hs
      obtain ⟨hinv, hsp⟩ := hi.same
        (t := { s with mem := m, held := Function.update s.held k (some f) }) hs rfl rfl
        (hx.seen hi.shape)
      refine ⟨true, _, ?_, hinv, (Option.some_ne_none _).symm, hsp⟩
      unfold call
      dsimp only
      rw [hk, ha]

theorem kfree_means (hi : s.Inv) (k : ℕ) : s.Means (.kfree k) := by
  cases hk : s.held k with
  | none =>
    refine hi.fails ?_ (Option.some_ne_none _).symm rfl
    unfold call
    dsimp only
    rw [hk]
  | some f =>
    obtain ⟨m, hm, hs, -, hseen⟩ := hi.shape.kfree (k := some k) hk
    rw [hands_update] at hs
    obtain ⟨hinv, hsp⟩ := hi.same
      (t := { s with mem := m, held := Function.update s.held k none }) hs rfl rfl hseen
    refine ⟨true, _, ?_, hinv, (Option.some_ne_none _).symm, hsp⟩
    unfold call
    dsimp only
    rw [hk]
    dsimp only
    rw [bind_some_fst hm]

theorem create_means (hi : s.Inv) (h : ℕ) : s.Means (.create h) := by
  cases hr : s.pagetable h with
  | some r =>
    refine hi.fails ?_ (Option.some_ne_none _).symm rfl
    unfold call
    dsimp only
    rw [hr]
  | none =>
    cases hc : s.mem.uvmcreate with
    | none =>
      refine hi.fails ?_ (Option.some_ne_none _).symm rfl
      unfold call
      dsimp only
      rw [hr, hc]
    | some y =>
      obtain ⟨r, m⟩ := y
      obtain ⟨hs, hseen⟩ := hi.shape.uvmcreate_spec hr hc
      have hnone : m.seen (Function.update s.pagetable h (some r)) h = fun _ => none := by
        rw [hseen]
        unfold Kmem.seen
        rw [hr]
        rfl
      obtain ⟨hinv, hsp⟩ : Vm.Inv { s with
          mem := m
          pagetable := Function.update s.pagetable h (some r)
          sz := Function.update s.sz h 0 } ∧ spaces { s with
          mem := m
          pagetable := Function.update s.pagetable h (some r)
          sz := Function.update s.sz h 0 } =
            Function.update s.spaces h (some ⟨0, fun _ => none⟩) := by
        refine hi.one hs (fun h' hh => Function.update_of_ne hh ..)
          (fun h' hh => Function.update_of_ne hh ..) (fun h' _ => congrFun hseen h')
          (fun r' _ w _ => ?_) ?_
        · dsimp only
          rw [hnone, Function.update_self]
          exact ⟨fun hc => absurd hc Bool.false_ne_true, fun hw => absurd hw (Nat.not_lt_zero w)⟩
        · unfold spaces
          dsimp only
          rw [Function.update_self, Function.update_self, hnone]
          rfl
      refine ⟨true, _, ?_, hinv, (Option.some_ne_none _).symm, hsp⟩
      unfold call
      dsimp only
      rw [hr, hc]

/-- A process whose pages from `lo` to `hi` are replaced. -/
theorem Inv.range (hi : s.Inv) (hr : s.pagetable h = some r)
    (hs : m.Shape s.pagetable s.hands) {lo up : ℕ} {y : ℕ → Option UserPage}
    (hseen : m.seen s.pagetable = setRange (s.mem.seen s.pagetable) h lo up y)
    (hfull : ∀ v, (if lo ≤ v ∧ v < up then y v else s.mem.seen s.pagetable h v).isSome = true ↔
      v < sizePages n) :
    Vm.Inv { s with mem := m, sz := Function.update s.sz h n } ∧
      spaces { s with mem := m, sz := Function.update s.sz h n } =
        Function.update s.spaces h (some ⟨n, fun v =>
          if lo ≤ v ∧ v < up then y v else s.mem.seen s.pagetable h v⟩) := by
  have hself : ∀ v, m.seen s.pagetable h v =
      if lo ≤ v ∧ v < up then y v else s.mem.seen s.pagetable h v := by
    intro v
    rw [hseen]
    unfold setRange
    refine if_congr ?_ rfl rfl
    exact and_iff_right rfl
  refine hi.one hs (fun _ _ => rfl) (fun h' hh => Function.update_of_ne hh ..)
    (fun h' hh => ?_) (fun r' _ w _ => ?_) ?_
  · dsimp only
    rw [hseen]
    funext v
    unfold setRange
    exact if_neg fun hc => hh hc.1
  · dsimp only
    rw [hself, Function.update_self]
    exact hfull w
  · unfold spaces
    dsimp only
    rw [hr, Function.update_self, Option.map_some, funext hself]

theorem mappable_grow (flags : BitVec 32) : Mappable (growPerm (flags2perm flags)) := by
  unfold flags2perm
  by_cases h1 : flags &&& 1 ≠ 0
  · by_cases h2 : flags &&& 2 ≠ 0
    · rw [if_pos h1, if_pos h2]
      exact ⟨by decide, by decide⟩
    · rw [if_pos h1, if_neg h2]
      exact ⟨by decide, by decide⟩
  · by_cases h2 : flags &&& 2 ≠ 0
    · rw [if_neg h1, if_pos h2]
      exact ⟨by decide, by decide⟩
    · rw [if_neg h1, if_neg h2]
      exact ⟨by decide, by decide⟩

/-- The pages of a process in the range of its size. -/
theorem Inv.pages (hi : s.Inv) (hr : s.pagetable h = some r) (v : ℕ) :
    (s.mem.seen s.pagetable h v).isSome = true ↔ v < sizePages (s.sz h) := by
  by_cases hv : v < sizePages (s.sz h)
  · have hle := hi.shape.full_pages hr (hi.full h r hr)
    have hu := npages_user R
    rw [hi.full h r hr v (by omega)]
  · rw [seen_ge hr (hi.full h r hr) (Nat.le_of_not_lt hv)]
    exact ⟨fun hc => absurd hc Bool.false_ne_true, fun hc => absurd hc hv⟩

/-- A process whose pages have new contents. -/
theorem Inv.user (hi : s.Inv) (hr : s.pagetable h = some r) (hs : m.Shape s.pagetable s.hands)
    {page : ℕ → Option UserPage}
    (hseen : m.seen s.pagetable = Function.update (s.mem.seen s.pagetable) h page)
    (hsome : ∀ v, (page v).isSome = (s.mem.seen s.pagetable h v).isSome) :
    Vm.Inv { s with mem := m } ∧
      spaces { s with mem := m } = Function.update s.spaces h (some ⟨s.sz h, page⟩) := by
  refine hi.one hs (fun _ _ => rfl) (fun _ _ => rfl) (fun h' hh => ?_) (fun r' _ w hw => ?_) ?_
  · dsimp only
    rw [hseen, Function.update_of_ne hh]
  · dsimp only
    rw [hseen, Function.update_self, hsome]
    exact hi.full h r hr w hw
  · unfold spaces
    dsimp only
    rw [hr, Option.map_some, hseen, Function.update_self]

theorem grow_means (hi : s.Inv) (h : ℕ) (newsz : BitVec 64) (flags : BitVec 32) :
    s.Means (.grow h newsz flags) := by
  cases hr : s.pagetable h with
  | none =>
    refine hi.fails ?_ (Option.some_ne_none _).symm rfl
    unfold call
    dsimp only
    rw [hr]
  | some r =>
    have hcall : ∀ n m, s.mem.uvmalloc r (s.sz h) newsz.toNat (flags2perm flags) = some (n, m) →
        s.call (.grow h newsz flags) = some (if n = 0 then (false, { s with mem := m })
          else (true, { s with mem := m, sz := Function.update s.sz h n })) := by
      intro n m hm
      unfold call
      dsimp only
      rw [hr]
      dsimp only
      rw [bind_some_fst hm]
    by_cases hle : s.sz h ≤ newsz.toNat
    · obtain ⟨ok, m, hm, hs, hseen⟩ := hi.shape.uvmalloc_spec hr rfl (hi.full h r hr)
        (mappable_grow flags) hle
      have hm' := hcall _ m hm
      by_cases hn : (if ok then newsz.toNat else 0) = 0
      · -- no memory, or no page is asked for
        have hsame : m.seen s.pagetable = s.mem.seen s.pagetable := by
          rw [hseen]
          cases ok with
          | false => rfl
          | true =>
            have hz : newsz.toNat = 0 := hn
            rw [if_pos rfl]
            refine setRange_empty ?_
            rw [hz]
            exact Nat.zero_le _
        rw [if_pos hn] at hm'
        obtain ⟨hinv, hsp⟩ := hi.same (t := { s with mem := m }) hs rfl rfl hsame
        exact ⟨false, _, hm', hinv, (Option.some_ne_none _).symm, hsp⟩
      · cases ok with
        | false => exact absurd rfl hn
        | true =>
          rw [if_neg hn, if_pos rfl] at hm'
          rw [if_pos rfl] at hseen
          have hmono := sizePages_mono hle
          obtain ⟨hinv, hsp⟩ := hi.range (n := newsz.toNat) hr hs hseen fun v => by
            split
            · rename_i hc
              exact ⟨fun _ => hc.2, fun _ => rfl⟩
            · rename_i hc
              rw [hi.pages hr]
              omega
          refine ⟨true, _, hm', hinv, (Option.some_ne_none _).symm, ?_⟩
          rw [hsp, if_pos rfl]
          unfold Spaces.succeed
          dsimp only
          rw [spaces_of hr, Option.map_some]
          unfold Space.grow
          dsimp only
          rw [Nat.max_eq_right hle]
          rfl
    · -- not larger than it is
      have hlt : newsz.toNat < s.sz h := Nat.lt_of_not_le hle
      have hm : s.mem.uvmalloc r (s.sz h) newsz.toNat (flags2perm flags) = some (s.sz h, s.mem) :=
        if_pos hlt
      have hm' := hcall _ _ hm
      have hup : Function.update s.sz h (s.sz h) = s.sz := Function.update_eq_self ..
      rw [if_neg (by omega), hup] at hm'
      refine ⟨true, s, hm', hi, (Option.some_ne_none _).symm, ?_⟩
      have hmono := sizePages_mono (Nat.le_of_lt hlt)
      have hsp : (⟨s.sz h, s.mem.seen s.pagetable h⟩ : Space).grow newsz.toNat flags =
          ⟨s.sz h, s.mem.seen s.pagetable h⟩ := by
        unfold Space.grow
        dsimp only
        rw [Nat.max_eq_left (Nat.le_of_lt hlt)]
        congr 1
        funext v
        exact if_neg (by omega)
      rw [if_pos rfl]
      unfold Spaces.succeed
      dsimp only
      rw [spaces_of hr, Option.map_some, hsp, ← spaces_of hr, Function.update_eq_self]

theorem shrink_means (hi : s.Inv) (h : ℕ) (newsz : BitVec 64) : s.Means (.shrink h newsz) := by
  cases hr : s.pagetable h with
  | none =>
    refine hi.fails ?_ ?_ rfl
    · unfold call
      dsimp only
      rw [hr]
    · unfold Spaces.answer
      dsimp only
      rw [spaces_none hr]
      decide
  | some r =>
    have hle := hi.shape.full_pages hr (hi.full h r hr)
    have hu := npages_user R
    obtain ⟨m, hm, hs, hseen⟩ := hi.shape.uvmdealloc_spec hr rfl (s.sz h) newsz.toNat (by omega)
    have hmin : sizePages (min (s.sz h) newsz.toNat) =
        min (sizePages (s.sz h)) (sizePages newsz.toNat) :=
      Monotone.map_min fun a b hab => sizePages_mono hab
    obtain ⟨hinv, hsp⟩ := hi.range (n := min (s.sz h) newsz.toNat) hr hs hseen fun v => by
      rw [hmin]
      split
      · rename_i hc
        exact ⟨fun hf => absurd hf Bool.false_ne_true, fun hf => by omega⟩
      · rename_i hc
        rw [hi.pages hr]
        omega
    refine ⟨true, _, ?_, hinv, ?_, ?_⟩
    · unfold call
      dsimp only
      rw [hr]
      dsimp only
      rw [bind_some_fst hm]
    · unfold Spaces.answer
      dsimp only
      rw [spaces_of hr]
      exact (some_ne_not : some true ≠ some !true)
    · rw [hsp, if_pos rfl]
      unfold Spaces.succeed
      dsimp only
      rw [spaces_of hr]
      rfl

theorem copy_means (hi : s.Inv) (h h' : ℕ) : s.Means (.copy h h') := by
  cases hr : s.pagetable h with
  | none =>
    refine hi.fails ?_ (Option.some_ne_none _).symm rfl
    unfold call
    dsimp only
    rw [hr]
  | some r =>
    cases hr' : s.pagetable h' with
    | none =>
      refine hi.fails ?_ (Option.some_ne_none _).symm rfl
      unfold call
      dsimp only
      rw [hr, hr']
    | some r' =>
      by_cases hg : h = h' ∨ s.sz h' ≠ 0
      · refine hi.fails ?_ (Option.some_ne_none _).symm rfl
        unfold call
        dsimp only
        rw [hr, hr']
        exact if_pos hg
      · obtain ⟨hne, hz⟩ := not_or.1 hg
        have hz' : s.sz h' = 0 := not_not.1 hz
        have hempty : s.mem.Full s.pagetable h' 0 := by
          rw [← hz']
          exact hi.full h' r' hr'
        obtain ⟨ok, m, hm, hs, hseen⟩ := hi.shape.uvmcopy_spec hr hr' hne rfl (hi.full h r hr) hempty
        have hcall : s.call (.copy h h') = some (ok, { s with
            mem := m
            sz := if ok then Function.update s.sz h' (s.sz h) else s.sz }) := by
          unfold call
          dsimp only
          rw [hr, hr']
          dsimp only
          rw [if_neg hg, bind_some_fst hm]
        cases ok with
        | false =>
          obtain ⟨hinv, hsp⟩ := hi.same (t := { s with mem := m }) hs rfl rfl hseen
          exact ⟨false, _, hcall, hinv, (Option.some_ne_none _).symm, hsp⟩
        | true =>
          rw [if_pos rfl] at hseen
          -- the copy has the pages of the size, and there are no others
          have hall : ∀ v, (if 0 ≤ v ∧ v < sizePages (s.sz h) then s.mem.seen s.pagetable h v
              else s.mem.seen s.pagetable h' v) = s.mem.seen s.pagetable h v := by
            intro v
            split
            · rfl
            · rename_i hc
              rw [seen_ge hr (hi.full h r hr) (by omega), seen_ge hr' hempty (Nat.zero_le v)]
          obtain ⟨hinv, hsp⟩ := hi.range (n := s.sz h) hr' hs hseen fun v => by
            rw [hall]
            exact hi.pages hr v
          refine ⟨true, _, hcall, hinv, (Option.some_ne_none _).symm, ?_⟩
          rw [if_pos rfl, if_pos rfl, hsp, funext hall]
          unfold Spaces.succeed
          dsimp only
          rw [spaces_of hr]

theorem free_means (hi : s.Inv) (h : ℕ) : s.Means (.free h) := by
  cases hr : s.pagetable h with
  | none =>
    refine hi.fails ?_ ?_ rfl
    · unfold call
      dsimp only
      rw [hr]
    · unfold Spaces.answer
      dsimp only
      rw [spaces_none hr]
      decide
  | some r =>
    obtain ⟨m, hm, hs, hseen⟩ := hi.shape.uvmfree_spec hr rfl (hi.full h r hr)
    obtain ⟨hinv, hsp⟩ : Vm.Inv { s with
        mem := m, pagetable := Function.update s.pagetable h none } ∧ spaces { s with
        mem := m, pagetable := Function.update s.pagetable h none } =
          Function.update s.spaces h none := by
      refine hi.one hs (fun h' hh => Function.update_of_ne hh ..) (fun _ _ => rfl)
        (fun h' hh => ?_) (fun r' hr' => ?_) ?_
      · dsimp only
        rw [hseen]
        funext v
        unfold setRange
        exact if_neg fun hc => hh hc.1
      · dsimp only at hr'
        rw [Function.update_self] at hr'
        cases hr'
      · unfold spaces
        dsimp only
        rw [Function.update_self]
        rfl
    refine ⟨true, _, ?_, hinv, ?_, hsp⟩
    · unfold call
      dsimp only
      rw [hr]
      dsimp only
      rw [bind_some_fst hm]
    · unfold Spaces.answer
      dsimp only
      rw [spaces_of hr]
      exact (some_ne_not : some true ≠ some !true)

theorem clear_means (hi : s.Inv) (h va : ℕ) : s.Means (.clear h va) := by
  cases hr : s.pagetable h with
  | none =>
    refine hi.fails ?_ ?_ rfl
    · unfold call
      dsimp only
      rw [hr]
    · unfold Spaces.answer
      dsimp only
      rw [spaces_none hr]
      exact (some_ne_not : some false ≠ some !false)
  | some r =>
    have hans : s.spaces.answer (.clear h va) =
        some (decide (va / pgsize < sizePages (s.sz h))) := by
      unfold Spaces.answer
      dsimp only
      rw [spaces_of hr]
      rfl
    by_cases hg : sizePages (s.sz h) ≤ va / pgsize
    · refine hi.fails ?_ ?_ rfl
      · unfold call
        dsimp only
        rw [hr]
        exact if_pos hg
      · rw [hans, decide_eq_false (Nat.not_lt_of_le hg)]
        decide
    · have hlt := Nat.lt_of_not_le hg
      have hle := hi.shape.full_pages hr (hi.full h r hr)
      have hu := npages_user R
      have hv : va / pgsize < userPages := by omega
      obtain ⟨m, hm, hs, hseen⟩ := hi.shape.uvmclear_spec hr hv ((hi.pages hr _).2 hlt)
      rw [update_seen] at hseen
      obtain ⟨hinv, hsp⟩ := hi.user hr hs hseen fun v => by
        by_cases hvv : v = va / pgsize
        · rw [hvv, Function.update_self, Option.isSome_map]
        · rw [Function.update_of_ne hvv]
      refine ⟨true, _, ?_, hinv, ?_, ?_⟩
      · unfold call
        dsimp only
        rw [hr]
        dsimp only
        rw [if_neg hg, bind_some_fst hm]
      · rw [hans, decide_eq_true hlt]
        decide
      · rw [hsp, if_pos rfl]
        unfold Spaces.succeed
        dsimp only
        rw [spaces_of hr]
        rfl

theorem copyout_means (hi : s.Inv) (h dst : ℕ) (src : List UInt8) :
    s.Means (.copyout h dst src) := by
  cases hr : s.pagetable h with
  | none =>
    refine hi.fails ?_ ?_ ?_
    · unfold call
      dsimp only
      rw [hr]
    · unfold Spaces.answer
      dsimp only
      rw [spaces_none hr]
      exact (some_ne_not : some false ≠ some !false)
    · unfold Spaces.fail
      dsimp only
      rw [spaces_none hr, Option.map_none, ← spaces_none hr, Function.update_eq_self]
      exact ite_self _
  | some r =>
    have hans : s.spaces.answer (.copyout h dst src) =
        some (decide (dst + src.length ≤ trapframe ∧
          Space.reach (Space.writable (s.mem.seen s.pagetable h)) dst src.length =
            src.length)) := by
      unfold Spaces.answer
      dsimp only
      rw [spaces_of hr]
      rfl
    by_cases hg : trapframe < dst + src.length
    · refine hi.fails ?_ ?_ (if_pos hg)
      · unfold call
        dsimp only
        rw [hr]
        exact if_pos hg
      · rw [hans, decide_eq_false fun hc => Nat.not_le_of_lt hg hc.1]
        decide
    · have htop := Nat.le_of_not_lt hg
      obtain ⟨m, hm, hs, hseen⟩ := hi.shape.copyout_spec hr htop
      obtain ⟨hinv, hsp⟩ := hi.user hr hs hseen fun v => by
        unfold Space.putBytes
        rw [Option.isSome_map]
      have hstep : spaces { s with mem := m } =
          Function.update s.spaces h ((s.spaces h).map fun p => p.copyout dst src) := by
        rw [hsp, spaces_of hr]
        rfl
      obtain ⟨ok, hok⟩ : ∃ ok, decide (Space.reach (Space.writable (s.mem.seen s.pagetable h)) dst
          src.length = src.length) = ok := ⟨_, rfl⟩
      rw [hok] at hm
      rw [decide_eq_decide.2 (and_iff_right htop), hok] at hans
      refine ⟨ok, { s with mem := m }, ?_, hinv, ?_, ?_⟩
      · unfold call
        dsimp only
        rw [hr]
        dsimp only
        rw [if_neg hg, bind_some_fst hm]
      · rw [hans]
        exact some_ne_not
      · rw [hstep]
        split
        · rfl
        · exact (if_neg hg).symm

/-- **A call.** -/
theorem Inv.means (hi : s.Inv) (c : VmCall) : s.Means c := by
  cases c with
  | kalloc k => exact kalloc_means hi k
  | kfree k => exact kfree_means hi k
  | create h => exact create_means hi h
  | grow h newsz flags => exact grow_means hi h newsz flags
  | shrink h newsz => exact shrink_means hi h newsz
  | copy h h' => exact copy_means hi h h'
  | clear h va => exact clear_means hi h va
  | copyout h dst src => exact copyout_means hi h dst src
  | free h => exact free_means hi h

/-! ### Calls that fail -/

/-- Why a call for memory fails, if the kernel makes it at all: `kalloc` and `uvmcreate` find no free
page, `uvmalloc` and `uvmcopy` fewer than three for each page that they are to make. (`uvmalloc` of
no bytes returns 0 too.) -/
def Short (s : Vm R) : VmCall → Prop
  | .kalloc k => s.held k = none → s.mem.freelist = []
  | .create h => s.pagetable h = none → s.mem.freelist = []
  | .grow h newsz _ => s.pagetable h ≠ none → newsz.toNat ≠ 0 →
      s.mem.freelist.length < 3 * (sizePages newsz.toNat - sizePages (s.sz h))
  | .copy h h' => s.pagetable h ≠ none → s.pagetable h' ≠ none → h ≠ h' → s.sz h' = 0 →
      s.mem.freelist.length < 3 * sizePages (s.sz h)
  | _ => True

theorem kalloc_short (hc : s.call (.kalloc k) = some (false, t)) : s.Short (.kalloc k) := by
  intro hk
  cases ha : s.mem.kalloc with
  | none => exact kalloc_none ha
  | some y =>
    unfold call at hc
    dsimp only at hc
    rw [hk, ha] at hc
    cases hc

theorem create_short (hc : s.call (.create h) = some (false, t)) : s.Short (.create h) := by
  intro hr
  cases ha : s.mem.uvmcreate with
  | none => exact kalloc_none (Option.map_eq_none_iff.1 ha)
  | some y =>
    unfold call at hc
    dsimp only at hc
    rw [hr, ha] at hc
    cases hc

theorem grow_short {newsz : BitVec 64} {flags : BitVec 32}
    (hc : s.call (.grow h newsz flags) = some (false, t)) : s.Short (.grow h newsz flags) := by
  intro hr hpos
  obtain ⟨r, hr⟩ := Option.ne_none_iff_exists'.1 hr
  unfold call at hc
  dsimp only at hc
  rw [hr] at hc
  obtain ⟨⟨n, m⟩, hm, hc⟩ := Option.bind_eq_some_iff.1 hc
  have hn : n = 0 := by
    by_contra hn
    dsimp only at hc
    rw [if_neg hn] at hc
    cases hc
  subst hn
  unfold Kmem.uvmalloc at hm
  split at hm
  · -- a process that is larger is not empty
    have hz := (Prod.mk.inj (Option.some.inj hm)).1
    omega
  · rename_i hle
    obtain ⟨⟨ok, m'⟩, hloop, hm⟩ := Option.bind_eq_some_iff.1 hm
    cases ok with
    | true => exact absurd (Prod.mk.inj (Option.some.inj hm)).1 hpos
    | false =>
      have hrounds := growRounds_eq (Nat.le_of_not_lt hle)
      have hshort := growLoop_takes hloop
      rw [pgroundup_eq] at hshort
      unfold Takes at hshort
      rw [if_neg Bool.false_ne_true] at hshort
      omega

theorem copy_short (hc : s.call (.copy h h') = some (false, t)) : s.Short (.copy h h') := by
  intro hr hr' hne hz
  obtain ⟨r, hr⟩ := Option.ne_none_iff_exists'.1 hr
  obtain ⟨r', hr'⟩ := Option.ne_none_iff_exists'.1 hr'
  unfold call at hc
  dsimp only at hc
  rw [hr, hr'] at hc
  dsimp only at hc
  rw [if_neg (not_or.2 ⟨hne, not_not.2 hz⟩)] at hc
  obtain ⟨⟨ok, m⟩, hm, hc⟩ := Option.bind_eq_some_iff.1 hc
  obtain rfl : ok = false := (Prod.mk.inj (Option.some.inj hc)).1
  exact copyLoop_takes hm

/-- **A call for memory fails only when there is too little.** -/
theorem call_short {c : VmCall} (hc : s.call c = some (false, t)) : s.Short c := by
  cases c with
  | kalloc k => exact kalloc_short hc
  | create h => exact create_short hc
  | grow h newsz flags => exact grow_short hc
  | copy h h' => exact copy_short hc
  | kfree k => trivial
  | shrink h newsz => trivial
  | clear h va => trivial
  | copyout h dst src => trivial
  | free h => trivial

/-! ### Runs -/

theorem boot_inv (R : Ram) : (boot R).Inv := by
  have hplace : ∀ c, (boot R).mem.place (boot R).pagetable (boot R).hands c = none := by
    intro c
    cases c with
    | hand k => cases k <;> rfl
    | table h p => rfl
    | page h v => rfl
  have hfree : ∀ f, f ∈ (boot R).mem.freelist := fun f =>
    List.mem_reverse.2 (List.mem_finRange f)
  have hno : ∀ h r, (boot R).pagetable h ≠ some r := fun _ _ hr => Option.some_ne_none _ hr.symm
  refine ⟨⟨List.nodup_reverse.2 (List.nodup_finRange R.npages), fun f _ => rfl, ?_,
    fun h r p t hr => absurd hr (hno h r), fun k f hk => ?_, fun h r v hr => absurd hr (hno h r)⟩,
    fun h r hr => absurd hr (hno h r)⟩
  · refine ⟨fun c hc => absurd (hplace c) hc, fun c d hc => absurd (hplace c) hc, ?_, ?_⟩
    · rintro y ⟨f, -, hf⟩
      exact absurd (hfree f) hf
    · rintro ⟨f, hf, -⟩
      cases hf
  · have hk' := (hplace (.hand k)).symm.trans hk
    cases hk'

/-- **A run.** -/
theorem Inv.calls : ∀ (cs : List VmCall) (s : Vm R), s.Inv →
    ∃ oks s', Vm.calls cs s = some (oks, s') ∧ oks.length = cs.length ∧ s'.Inv ∧
      Spaces.steps (cs.zip oks) s.spaces = some s'.spaces := by
  intro cs
  induction cs with
  | nil => exact fun s hi => ⟨[], s, rfl, rfl, hi, rfl⟩
  | cons c cs ih =>
    intro s hi
    obtain ⟨ok, s₁, hc, hi₁, hans, hsp₁⟩ := hi.means c
    obtain ⟨oks, s₂, hcs, hlen, hi₂, hsp₂⟩ := ih s₁ hi₁
    refine ⟨ok :: oks, s₂, ?_, congrArg Nat.succ hlen, hi₂, ?_⟩
    · unfold Vm.calls
      rw [bind_some_fst hc]
      dsimp only
      rw [bind_some_fst hcs]
    · rw [List.zip_cons_cons, Spaces.steps, if_neg hans, ← hsp₁]
      exact hsp₂

/-- One more call. -/
theorem calls_snoc : ∀ (cs : List VmCall) {s t u : Vm R} {oks : List Bool} {c : VmCall} {ok : Bool},
    calls cs s = some (oks, t) → t.call c = some (ok, u) →
      calls (cs ++ [c]) s = some (oks ++ [ok], u) := by
  intro cs
  induction cs with
  | nil =>
    intro s t u oks c ok hs hc
    obtain ⟨rfl, rfl⟩ := Prod.mk.inj (Option.some.inj hs)
    rw [List.nil_append, calls, bind_some_fst hc]
    rfl
  | cons c' cs ih =>
    intro s t u oks c ok hs hc
    rw [calls] at hs
    obtain ⟨⟨ok', s₁⟩, hc', hs⟩ := Option.bind_eq_some_iff.1 hs
    obtain ⟨⟨oks', s₂⟩, hs', hs⟩ := Option.bind_eq_some_iff.1 hs
    obtain ⟨rfl, rfl⟩ := Prod.mk.inj (Option.some.inj hs)
    rw [List.cons_append, calls, bind_some_fst hc']
    dsimp only
    rw [bind_some_fst (ih hs' hc)]
    rfl

end Vm

/-- **Address spaces are independent.** -/
theorem vm_refines_spaces (R : Ram) (cs : List VmCall) :
    ∃ oks s, Vm.calls cs (Vm.boot R) = some (oks, s) ∧ oks.length = cs.length ∧
      Spaces.steps (cs.zip oks) (fun _ => none) = some s.spaces ∧
      ∀ c t, s.call c = some (false, t) → s.Short c := by
  obtain ⟨oks, s, hs, hlen, -, hsp⟩ := Vm.Inv.calls cs (Vm.boot R) (Vm.boot_inv R)
  exact ⟨oks, s, hs, hlen, hsp, fun c t hc => Vm.call_short hc⟩

/-- Twelve pages. -/
def twelvePages : Ram := ⟨557044, 12, by decide, by decide⟩

/-- A process writes a few bytes, and so does its child. -/
def writeForkWrite : List VmCall :=
  [.create 0, .grow 0 5000#64 2#32, .copyout 0 4094 [1, 2, 3], .create 1, .copy 0 1,
    .copyout 1 4094 [4], .clear 1 0, .copyout 1 4090 [5], .grow 0 50000#64 2#32]

-- the guard page is not written, and for a larger process there is no memory
example : (Vm.calls writeForkWrite (Vm.boot twelvePages)).map Prod.fst =
    some [true, true, true, true, true, true, true, false, false] := by
  decide +kernel

/-- **Every page is free, or in one place.** -/
theorem vm_page_places (R : Ram) (cs : List VmCall) :
    ∃ oks s, Vm.calls cs (Vm.boot R) = some (oks, s) ∧ s.mem.freelist.Nodup ∧
      ∀ f, (f ∈ s.mem.freelist ∧ ∀ c, s.mem.place s.pagetable s.hands c ≠ some f) ∨
        f ∉ s.mem.freelist ∧ ∃! c, s.mem.place s.pagetable s.hands c = some f := by
  obtain ⟨oks, s, hs, -, hi, -⟩ := Vm.Inv.calls cs (Vm.boot R) (Vm.boot_inv R)
  refine ⟨oks, s, hs, hi.shape.nodup, fun f => ?_⟩
  by_cases hf : f ∈ s.mem.freelist
  · exact .inl ⟨hf, hi.shape.free_place hf⟩
  · exact .inr ⟨hf, hi.shape.owned.unique ⟨f, rfl, hf⟩⟩

/-- **What a process reads is its own memory.** -/
theorem vm_copyin (R : Ram) (cs : List VmCall) :
    ∃ oks s, Vm.calls cs (Vm.boot R) = some (oks, s) ∧
      ∀ h r src len, s.pagetable h = some r → src + len ≤ trapframe →
        ∃ p, s.spaces h = some p ∧ s.mem.copyin r src len = some (p.copyin src len) := by
  obtain ⟨oks, s, hs, -, hi, -⟩ := Vm.Inv.calls cs (Vm.boot R) (Vm.boot_inv R)
  exact ⟨oks, s, hs, fun h r src len hr htop =>
    ⟨_, Vm.spaces_of hr, hi.shape.copyin_spec hr htop⟩⟩

/-- The three bytes of the parent, across a page boundary. -/
theorem vm_copyin_parent :
    ∃ oks s r p, Vm.calls writeForkWrite (Vm.boot twelvePages) = some (oks, s) ∧
      s.pagetable 0 = some r ∧ s.spaces 0 = some p ∧ s.mem.copyin r 4094 3 = some (p.copyin 4094 3) ∧
      s.mem.copyin r 4094 3 = some (true, [1, 2, 3]) := by
  obtain ⟨oks, s, hs, hread⟩ := vm_copyin twelvePages writeForkWrite
  have hr : (Vm.calls writeForkWrite (Vm.boot twelvePages)).map (fun x => x.2.pagetable 0) =
      some (some ⟨11, by decide⟩) := by decide +kernel
  have hb : (Vm.calls writeForkWrite (Vm.boot twelvePages)).bind (fun x =>
      x.2.mem.copyin ⟨11, by decide⟩ 4094 3) = some (true, [1, 2, 3]) := by decide +kernel
  rw [hs] at hr hb
  replace hr := Option.some.inj hr
  obtain ⟨p, hp, hin⟩ := hread 0 _ 4094 3 hr (by decide)
  exact ⟨oks, s, _, p, hs, hr, hp, hin, hb⟩

/-- **What `copyout` writes, `copyin` reads.** -/
theorem vm_copyout_copyin (R : Ram) (cs : List VmCall) (h dst : ℕ) (src : List UInt8) :
    ∃ oks ok s, Vm.calls (cs ++ [.copyout h dst src]) (Vm.boot R) = some (oks ++ [ok], s) ∧
      (ok = true → ∃ r, s.pagetable h = some r ∧
        s.mem.copyin r dst src.length = some (true, src)) := by
  obtain ⟨oks, t, hcs, -, hi, -⟩ := Vm.Inv.calls cs (Vm.boot R) (Vm.boot_inv R)
  obtain ⟨ok, s, hc, hi', hans, hsp⟩ := hi.means (.copyout h dst src)
  refine ⟨oks, ok, s, Vm.calls_snoc cs hcs hc, ?_⟩
  rintro rfl
  -- the answer was right: every byte could be written
  rw [if_pos rfl] at hsp
  unfold Spaces.succeed at hsp
  unfold Spaces.answer at hans
  dsimp only at hsp hans
  cases hp : t.spaces h with
  | none =>
    rw [hp] at hans
    exact absurd rfl hans
  | some p =>
    rw [hp, Option.any_some] at hans
    have hall : dst + src.length ≤ trapframe ∧
        Space.reach (Space.writable p.page) dst src.length = src.length := by
      by_contra hn
      rw [decide_eq_false hn] at hans
      exact hans rfl
    have hself : s.spaces h = some (p.copyout dst src) := by
      rw [hsp, Function.update_self, hp]
      rfl
    cases hr : s.pagetable h with
    | none =>
      rw [Vm.spaces_none hr] at hself
      cases hself
    | some r =>
      rw [Vm.spaces_of hr] at hself
      refine ⟨r, rfl, ?_⟩
      rw [hi'.shape.copyin_spec (z := s.sz h) hr hall.1, Option.some.inj hself,
        Space.copyin_copyout hall.2]

/-- Three bytes across a page boundary. -/
theorem vm_copyout_copyin_boundary :
    ∃ s r, s.pagetable 0 = some r ∧ Vm.calls ([.create 0, .grow 0 5000#64 2#32] ++
        [.copyout 0 4094 [1, 2, 3]]) (Vm.boot twelvePages) = some ([true, true, true], s) ∧
      s.mem.copyin r 4094 3 = some (true, [1, 2, 3]) := by
  obtain ⟨oks, ok, s, hs, hread⟩ := vm_copyout_copyin twelvePages
    [.create 0, .grow 0 5000#64 2#32] 0 4094 [1, 2, 3]
  have hoks : (Vm.calls ([.create 0, .grow 0 5000#64 2#32] ++ [.copyout 0 4094 [1, 2, 3]])
      (Vm.boot twelvePages)).map Prod.fst = some ([true, true] ++ [true]) := by
    decide +kernel
  rw [hs] at hoks
  have hok := List.append_inj' (Option.some.inj hoks) rfl
  obtain ⟨r, hr, hin⟩ := hread (List.singleton_inj.1 hok.2)
  refine ⟨s, r, hr, ?_, hin⟩
  rw [hs]
  exact congrArg (fun l => some (l, s)) (Option.some.inj hoks)

end AgentOS
