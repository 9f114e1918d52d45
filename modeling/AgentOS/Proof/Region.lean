import AgentOS.Model.Context

/-!
# The Context region

* `Readable`, `Writable`: what the page bits allow; `copyThrough_done`, `copyThrough_of`: a
  copy through the buffer moves the range.
* `InRegion`: the region is mapped; `SameRegion`: a call leaves it where it is.
* `Synced`: the header functions leave the path area as it is.
-/

namespace AgentOS

open Slice

/-! ### Pages -/

/-- The user can read the range. -/
def Readable (m : Memory) (va n : ℕ) : Prop := ∀ g ∈ pages va n, m.user g = true

/-- The user can write the range. -/
def Writable (m : Memory) (va n : ℕ) : Prop := ∀ g ∈ pages va n, m.user g = true ∧ m.writable g = true

section

variable {m m' : Memory} {va n o k g src dst : ℕ} {bytes : List UInt8}

theorem mem_pages : g ∈ pages va n ↔ 0 < n ∧ va / pgsize ≤ g ∧ g ≤ (va + n - 1) / pgsize := by
  unfold pages
  split
  · simp; omega
  · rw [List.mem_range'_1]
    have hle : va / pgsize ≤ (va + n - 1) / pgsize := Nat.div_le_div_right (by omega)
    omega

theorem pages_sub (h : o + k ≤ n) (hg : g ∈ pages (va + o) k) : g ∈ pages va n := by
  obtain ⟨h0, h₁, h₂⟩ := mem_pages.1 hg
  refine mem_pages.2 ⟨by omega, le_trans (Nat.div_le_div_right (by omega)) h₁, ?_⟩
  exact h₂.trans (Nat.div_le_div_right (by omega))

theorem Readable.sub (h : Readable m va n) (hk : o + k ≤ n) : Readable m (va + o) k :=
  fun g hg => h g (pages_sub hk hg)

theorem Writable.sub (h : Writable m va n) (hk : o + k ≤ n) : Writable m (va + o) k :=
  fun g hg => h g (pages_sub hk hg)

theorem Writable.readable (h : Writable m va n) : Readable m va n := fun g hg => (h g hg).1

theorem copyin_of (h : Readable m va n) : m.copyin va n = some (slice m.byte va n) := by
  unfold Memory.copyin
  rw [if_pos (List.all_eq_true.2 h)]

theorem copyout_of (h : Writable m va bytes.length) :
    m.copyout va bytes = ({ m with byte := write m.byte va bytes }, true) := by
  unfold Memory.copyout
  rw [List.find?_eq_none.2 fun g hg => by simp [h g hg]]

theorem copyin_done {tmp : List UInt8} (h : m.copyin va n = some tmp) : tmp = slice m.byte va n := by
  unfold Memory.copyin at h
  split at h <;> simp only [Option.some.injEq, reduceCtorEq] at h
  exact h.symm

theorem copyout_done (h : (m.copyout va bytes).2 = true) :
    m.copyout va bytes = ({ m with byte := write m.byte va bytes }, true) := by
  unfold Memory.copyout at h ⊢
  split at h <;> simp_all only [reduceCtorEq]

/-- A copy reaches its end only where all pages can be written. -/
theorem writable_of_copyout (h : (m.copyout va bytes).2 = true) : Writable m va bytes.length := by
  unfold Memory.copyout at h
  split at h
  · rename_i hnone
    intro g hg
    simpa using List.find?_eq_none.1 hnone g hg
  · simp at h

/-- A copy changes no page bits. -/
theorem copyout_pages (m : Memory) (va : ℕ) (bytes : List UInt8) :
    (m.copyout va bytes).1.user = m.user ∧ (m.copyout va bytes).1.writable = m.writable := by
  unfold Memory.copyout
  split <;> exact ⟨rfl, rfl⟩

/-- A copy, complete or not, changes no byte outside its range. -/
theorem copyout_outside (m : Memory) (h : o + k ≤ va ∨ va + bytes.length ≤ o) :
    slice (m.copyout va bytes).1.byte o k = slice m.byte o k := by
  unfold Memory.copyout
  split
  · exact slice_write_disjoint h
  · refine slice_write_disjoint ?_
    rw [List.length_take]
    omega

theorem copyChunk_pages (src dst : ℕ) (r : Memory × Bool) (x : ℕ × ℕ) :
    (Memory.copyChunk src dst r x).1.user = r.1.user ∧
      (Memory.copyChunk src dst r x).1.writable = r.1.writable := by
  unfold Memory.copyChunk
  split
  · split
    · exact ⟨rfl, rfl⟩
    · exact copyout_pages _ _ _
  · exact ⟨rfl, rfl⟩

theorem copyChunk_done {r : Memory × Bool} {x : ℕ × ℕ}
    (h : (Memory.copyChunk src dst r x).2 = true) :
    r.2 = true ∧
      Memory.copyChunk src dst r x = ({ r.1 with byte := move src dst r.1.byte x }, true) := by
  unfold Memory.copyChunk at h ⊢
  split at h
  · rename_i hr
    rw [if_pos hr]
    split at h
    · simp at h
    · rename_i tmp htmp
      have hread := copyin_done htmp
      rw [copyout_done h, hread]
      exact ⟨hr, rfl⟩
  · rename_i hr
    exact absurd h hr

/-- **A copy through the buffer moves the range**, if it reaches its end. -/
theorem copyThrough_done (h : (m.copyThrough src dst n).2 = true)
    (ho : dst ≤ src ∨ src + n ≤ dst ∨ n ≤ 128) :
    m.copyThrough src dst n = ({ m with byte := write m.byte dst (slice m.byte src n) }, true) := by
  have hrun : ∀ (L : List (ℕ × ℕ)) (r : Memory × Bool),
      (L.foldl (Memory.copyChunk src dst) r).2 = true → r.2 = true ∧
        L.foldl (Memory.copyChunk src dst) r =
          ({ r.1 with byte := L.foldl (move src dst) r.1.byte }, true) := by
    intro L
    induction L with
    | nil =>
      intro r hr
      exact ⟨hr, by rw [← hr]; rfl⟩
    | cons x L ih =>
      intro r hr
      rw [List.foldl_cons] at hr ⊢
      obtain ⟨hx, hL⟩ := ih _ hr
      obtain ⟨hr', hstep⟩ := copyChunk_done hx
      refine ⟨hr', ?_⟩
      rw [hL, hstep]
      rfl
  unfold Memory.copyThrough at h ⊢
  rw [(hrun _ _ h).2, move_chunks (by decide) ho]

theorem copyThrough_pages (m : Memory) (src dst n : ℕ) :
    (m.copyThrough src dst n).1.user = m.user ∧
      (m.copyThrough src dst n).1.writable = m.writable := by
  have hrun : ∀ (L : List (ℕ × ℕ)) (r : Memory × Bool),
      (L.foldl (Memory.copyChunk src dst) r).1.user = r.1.user ∧
        (L.foldl (Memory.copyChunk src dst) r).1.writable = r.1.writable := by
    intro L
    induction L with
    | nil => intro r; exact ⟨rfl, rfl⟩
    | cons x L ih =>
      intro r
      have hx := copyChunk_pages src dst r x
      exact ⟨(ih _).1.trans hx.1, (ih _).2.trans hx.2⟩
  exact hrun _ (m, true)

theorem chunk_le {x : ℕ × ℕ} (hx : x ∈ chunks 128 n) : x.1 + x.2 ≤ n := by
  simp only [chunks, List.mem_map, List.mem_range] at hx
  obtain ⟨k, hk, rfl⟩ := hx
  dsimp only
  omega

/-- It changes no byte outside its target. -/
theorem copyThrough_outside (m : Memory) (src : ℕ) (h : o + k ≤ dst ∨ dst + n ≤ o) :
    slice (m.copyThrough src dst n).1.byte o k = slice m.byte o k := by
  have hstep : ∀ (r : Memory × Bool) (x : ℕ × ℕ), x.1 + x.2 ≤ n →
      slice (Memory.copyChunk src dst r x).1.byte o k = slice r.1.byte o k := by
    intro r x hx
    unfold Memory.copyChunk
    split
    · split
      · rfl
      · rename_i tmp htmp
        refine copyout_outside _ ?_
        rw [copyin_done htmp, slice_length]
        omega
    · rfl
  have hrun : ∀ (L : List (ℕ × ℕ)) (r : Memory × Bool), (∀ x ∈ L, x.1 + x.2 ≤ n) →
      slice (L.foldl (Memory.copyChunk src dst) r).1.byte o k = slice r.1.byte o k := by
    intro L
    induction L with
    | nil => intro r _; rfl
    | cons x L ih =>
      intro r hL
      rw [List.foldl_cons, ih _ fun y hy => hL y (List.mem_cons_of_mem _ hy)]
      exact hstep r x (hL x List.mem_cons_self)
  exact hrun _ (m, true) fun x hx => chunk_le hx

/-- It reaches its end where the pages let it. -/
theorem copyThrough_ok (hs : Readable m src n) (hd : Writable m dst n) :
    (m.copyThrough src dst n).2 = true := by
  have hrun : ∀ L : List (ℕ × ℕ), (∀ x ∈ L, x.1 + x.2 ≤ n) → ∀ f : ℕ → UInt8,
      (L.foldl (Memory.copyChunk src dst) ({ m with byte := f }, true)).2 = true := by
    intro L
    induction L with
    | nil => intro _ f; rfl
    | cons x L ih =>
      intro hL f
      have hx := hL x (by simp)
      have hr : Readable { m with byte := f } (src + x.1) x.2 := hs.sub hx
      have hw : Writable { m with byte := f } (dst + x.1) (slice f (src + x.1) x.2).length := by
        rw [slice_length]; exact hd.sub hx
      have hstep : Memory.copyChunk src dst ({ m with byte := f }, true) x =
          ({ m with byte := move src dst f x }, true) := by
        simp only [Memory.copyChunk, if_true, copyin_of hr]
        exact copyout_of hw
      rw [List.foldl_cons, hstep]
      exact ih (fun y hy => hL y (by simp [hy])) _
  exact hrun _ (fun x hx => chunk_le hx) m.byte

end

/-! ### The region -/

/-- The region is mapped. -/
structure InRegion (c : ContextState) (m : Memory) : Prop where
  start : c.contextRegionStart ≠ 0
  mapped : ContextRun.RegionMapped c m

/-- The bytes behind the header. -/
def pathSize : ℕ := agentContextRegionSize - sizeofContextHeader

section

variable {c c' : ContextState} {m m' : Memory} {va n : ℕ}

/-- The whole region can be read and written. -/
theorem InRegion.writable (h : InRegion c m) (hva : c.contextRegionStart ≤ va)
    (hn : va + n ≤ c.contextRegionStart + agentContextRegionSize) : Writable m va n := by
  intro g hg
  obtain ⟨h0, h₁, h₂⟩ := mem_pages.1 hg
  obtain ⟨halign, -, hpages⟩ := h.mapped
  unfold agentContextRegionSize at hn
  refine hpages g (le_trans (Nat.div_le_div_right hva) h₁) ?_
  unfold pgsize agentContextRegionSize at *
  omega

theorem InRegion.path (h : InRegion c m) (hva : c.agentPathBase ≤ va)
    (hn : va + n ≤ c.agentPathBase + pathSize) : Writable m va n := by
  refine h.writable ?_ ?_ <;>
    simp only [ContextState.agentPathBase, pathSize, sizeofContextHeader, agentContextRegionSize] at * <;>
    omega

theorem InRegion.capacity (h : InRegion c m) : c.agentPathCapacity ≤ pathSize := by
  have hs := h.mapped.2.1
  unfold ContextState.agentPathCapacity pathSize
  rw [hs]
  have hcap : (agentContextRegionSize + 2 ^ 64 - sizeofContextHeader) % 2 ^ 64 =
      agentContextRegionSize - sizeofContextHeader := by decide
  simp only [hcap]
  split <;> omega

/-- Bits of pages and the place of the region are all that matters. -/
theorem InRegion.congr (h : InRegion c m) (hs : c'.contextRegionStart = c.contextRegionStart)
    (hz : c'.contextRegionSize = c.contextRegionSize) (hu : m'.user = m.user)
    (hw : m'.writable = m.writable) : InRegion c' m' := by
  obtain ⟨hstart, halign, hsize, hpages⟩ := h
  refine ⟨by rw [hs]; exact hstart, by rw [hs]; exact halign, by rw [hz]; exact hsize, ?_⟩
  rw [hs, hu, hw]
  exact hpages

/-- Where the region is, how large the path may get and which pages are mapped. -/
structure SameRegion (c c' : ContextState) (m m' : Memory) : Prop where
  start : c'.contextRegionStart = c.contextRegionStart
  size : c'.contextRegionSize = c.contextRegionSize
  quota : c'.resourceQuota = c.resourceQuota
  user : m'.user = m.user
  writable : m'.writable = m.writable

theorem SameRegion.refl (c : ContextState) (m : Memory) : SameRegion c c m m :=
  ⟨rfl, rfl, rfl, rfl, rfl⟩

theorem SameRegion.trans {c'' : ContextState} {m'' : Memory} (h : SameRegion c c' m m')
    (h' : SameRegion c' c'' m' m'') : SameRegion c c'' m m'' :=
  ⟨h'.start.trans h.start, h'.size.trans h.size, h'.quota.trans h.quota, h'.user.trans h.user,
    h'.writable.trans h.writable⟩

theorem SameRegion.base (h : SameRegion c c' m m') : c'.agentPathBase = c.agentPathBase := by
  unfold ContextState.agentPathBase
  rw [h.start]

theorem SameRegion.capacity (h : SameRegion c c' m m') :
    c'.agentPathCapacity = c.agentPathCapacity := by
  unfold ContextState.agentPathCapacity
  rw [h.size, h.quota]

theorem SameRegion.mapped (h : SameRegion c c' m m') (hr : ContextRun.RegionMapped c m) :
    ContextRun.RegionMapped c' m' := by
  unfold ContextRun.RegionMapped
  rw [h.start, h.size, h.user, h.writable]
  exact hr

theorem SameRegion.inRegion (h : SameRegion c c' m m') (hr : InRegion c m) : InRegion c' m' :=
  hr.congr h.start h.size h.user h.writable

theorem pathSize_eq : pathSize = 7552 := by decide

/-! ### The header -/

theorem header_length (h : AgentContextHeader) : h.bytes.length = sizeofContextHeader := by
  have hle : ∀ w v, (littleEndian w v).length = w := fun w v => by simp [littleEndian]
  simp [AgentContextHeader.bytes, hle, padded_length, sizeofContextHeader, agentToolNameMax,
    agentToolResultMax]

/-- A header is written where its bytes can be. -/
theorem writeHeader_writable (hs : c.contextRegionStart ≠ 0)
    (hw : Writable m c.contextRegionStart sizeofContextHeader) (h : AgentContextHeader) :
    (c.writeHeader m h).2 = true := by
  unfold ContextState.writeHeader
  rw [if_neg hs, copyout_of (by rw [header_length]; exact hw)]

theorem writeHeader_pages (c : ContextState) (m : Memory) (h : AgentContextHeader) :
    (c.writeHeader m h).1.user = m.user ∧ (c.writeHeader m h).1.writable = m.writable := by
  unfold ContextState.writeHeader
  split
  · exact ⟨rfl, rfl⟩
  · exact copyout_pages _ _ _

/-- The header ends before the path area. -/
theorem writeHeader_path (c : ContextState) (m : Memory) (h : AgentContextHeader) (n : ℕ) :
    slice (c.writeHeader m h).1.byte c.agentPathBase n = slice m.byte c.agentPathBase n := by
  unfold ContextState.writeHeader
  split
  · rfl
  · refine copyout_outside _ ?_
    rw [header_length]
    exact .inr le_rfl

/-- What the header functions leave: only the generation and the header change. -/
structure Synced (c c' : ContextState) (m m' : Memory) : Prop where
  ctx : ∃ g, c' = { c with contextGeneration := g }
  path : ∀ n, slice m'.byte c.agentPathBase n = slice m.byte c.agentPathBase n
  user : m'.user = m.user
  writable : m'.writable = m.writable

theorem Synced.same (h : Synced c c' m m') : SameRegion c c' m m' := by
  obtain ⟨⟨g, rfl⟩, -, hu, hw⟩ := h
  exact ⟨rfl, rfl, rfl, hu, hw⟩
theorem Synced.next (h : Synced c c' m m') : c'.contextNextSequence = c.contextNextSequence := by
  obtain ⟨⟨g, rfl⟩, -, -, -⟩ := h
  rfl

theorem Synced.first (h : Synced c c' m m') : c'.contextFirstSequence = c.contextFirstSequence := by
  obtain ⟨⟨g, rfl⟩, -, -, -⟩ := h
  rfl

theorem Synced.dropped (h : Synced c c' m m') : c'.contextDroppedNodes = c.contextDroppedNodes := by
  obtain ⟨⟨g, rfl⟩, -, -, -⟩ := h
  rfl

/-- A new generation and a header. -/
theorem synced_of (c : ContextState) (m : Memory) (g : ℕ) (h : AgentContextHeader) :
    Synced c { c with contextGeneration := g } m
      (ContextState.writeHeader { c with contextGeneration := g } m h).1 :=
  ⟨⟨g, rfl⟩, fun n => writeHeader_path { c with contextGeneration := g } m h n,
    (writeHeader_pages _ _ _).1, (writeHeader_pages _ _ _).2⟩

theorem synced_writeBegin (c : ContextState) (m : Memory) (now : ℕ) :
    Synced c (c.writeBegin m now).1 m (c.writeBegin m now).2.1 := synced_of c m _ _

theorem synced_syncHeader (c : ContextState) (m : Memory) (now : ℕ) :
    Synced c (c.syncHeader m now).1 m (c.syncHeader m now).2.1 := synced_of c m _ _

/-- In a mapped region the header can be written. -/
theorem writeHeader_ok (hr : InRegion c m) (g : ℕ) (h : AgentContextHeader) :
    (ContextState.writeHeader { c with contextGeneration := g } m h).2 = true := by
  refine writeHeader_writable hr.start ?_ h
  refine hr.writable le_rfl ?_
  unfold sizeofContextHeader agentContextRegionSize
  exact Nat.add_le_add_left (by decide) _

theorem writeBegin_of (hr : InRegion c m) (now : ℕ) :
    Synced c (c.writeBegin m now).1 m (c.writeBegin m now).2.1 ∧
      (c.writeBegin m now).2.2 = true :=
  ⟨synced_writeBegin c m now, writeHeader_ok hr _ _⟩

theorem syncHeader_of (hr : InRegion c m) (now : ℕ) :
    Synced c (c.syncHeader m now).1 m (c.syncHeader m now).2.1 ∧
      (c.syncHeader m now).2.2 = true :=
  ⟨synced_syncHeader c m now, writeHeader_ok hr _ _⟩

end

end AgentOS
