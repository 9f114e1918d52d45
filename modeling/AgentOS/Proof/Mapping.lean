import AgentOS.Proof.Writeback

/-!
# The contents of a memory mapping

In a run whose calls all meet `MapState.Keeps`, a mapped address reads the byte of the file with the
stores applied, an unmapped one cannot be accessed, and the file has what was stored
(`mapping_contents`). The invariant (`Resident`) is that the slot of `vma_list` is the mapping that
the caller sees, that only its pages are in memory, with its bytes, and that the file is still that
of `sys_mmap`. What goes wrong without the condition is `mapping_contents_breaks`.
-/

namespace AgentOS

open Machine

variable {s t : MapState} {m : Mapping} {v : VmaSlot} {va : ℕ}

/-! ### Pages -/

namespace MapState

@[simp] theorem setPage_vma (p : ℕ) (x : UserPage) : (s.setPage p x).vma = s.vma := rfl
@[simp] theorem setPage_data (p : ℕ) (x : UserPage) : (s.setPage p x).data = s.data := rfl
@[simp] theorem setPage_live (p : ℕ) (x : UserPage) : (s.setPage p x).live = s.live := rfl

theorem setPage_page (p : ℕ) (x : UserPage) :
    (s.setPage p x).page va = if va / pgsize = p then some x else s.page va := by
  unfold page setPage
  by_cases h : va / pgsize = p
  · rw [if_pos h, h]
    exact Function.update_self ..
  · rw [if_neg h]
    exact Function.update_of_ne h ..

theorem setPage_byte (p : ℕ) (x : UserPage) :
    (s.setPage p x).byte va = if va / pgsize = p then some (x.bytes (va % pgsize)) else s.byte va := by
  unfold byte
  rw [setPage_page]
  by_cases h : va / pgsize = p
  · rw [if_pos h, if_pos h, Option.map_some]
  · rw [if_neg h, if_neg h]

theorem load_eq {p : UserPage} (hp : s.page va = some p) :
    s.load va = if p.Loads then s.byte va else none := by
  simp only [load, byte, hp, Option.map_some]

theorem store_none (hp : s.page va = none) (b : UInt8) : s.store va b = none := by
  simp only [store, hp]

/-- A store is to a page that is there. -/
theorem store_eq {b : UInt8} (h : s.store va b = some t) : ∃ p, s.page va = some p ∧
    t = s.setPage (va / pgsize) { p with bytes := Function.update p.bytes (va % pgsize) b } := by
  unfold store at h
  cases hp : s.page va with
  | none =>
    rw [hp] at h
    cases h
  | some p =>
    rw [hp] at h
    dsimp only at h
    split at h <;> [skip; cases h]
    exact ⟨p, rfl, (Option.some.inj h).symm⟩

end MapState

theorem readi_getD {d : List UInt8} {off n k : ℕ} (hk : k < n) (h : off + n < 2 ^ 32) :
    (readi d off n).getD k 0 = d.getD (off + k) 0 := by
  unfold readi
  rw [Nat.mod_eq_of_lt h]
  by_cases hoff : d.length < off
  · rw [if_pos (.inl hoff), List.getD_nil, List.getD_eq_getElem?_getD,
      List.getElem?_eq_none (by omega), Option.getD_none]
  · rw [if_neg (by omega), List.getD_eq_getElem?_getD, List.getD_eq_getElem?_getD,
      List.getElem?_take_of_lt hk, List.getElem?_drop]

/-! ### The invariant -/

/-- **The slot of a mapping and its pages.** -/
structure Resident (s : MapState) (m : Mapping) (v : VmaSlot) : Prop where
  start : v.start = m.base
  lo : m.lo = m.base
  stop : v.stop = m.hi
  off : v.off = 0
  length : m.lo < m.hi → v.length = m.hi - m.lo
  writable : v.permission &&& pteW ≠ 0
  shared : v.flags &&& mapPrivate = 0
  readable : v.permission &&& pteR ≠ 0
  place : MapPlace m.base
  top : m.hi = m.top ∨ m.hi ≤ m.top ∧ m.hi % pgsize = 0
  bound : m.top < m.base + 2 ^ 31
  pages : ∀ p x, s.pages p = some x → m.lo ≤ p * pgsize ∧ p * pgsize < m.hi ∧ x.flags = v.permission
  bytes : ∀ va b, m.lo ≤ va → va < m.hi → s.byte va = some b → b = m.content va
  kept : ∀ va b, m.stored va = some b → m.lo ≤ va ∧ va < m.hi ∧ (s.byte va).isSome = true
  file : s.data = m.file

/-- **Nothing is mapped.** -/
structure Unmapped (s : MapState) (m : Mapping) : Prop where
  bounds : m.hi ≤ m.lo
  pages : ∀ p, s.pages p = none
  saved : ∀ va, m.base ≤ va → va < m.top → ∀ b, m.stored va = some b →
    va - m.base < s.data.length → s.data[va - m.base]? = some b

/-- The two cases of a reachable state. -/
def MapInv (s : MapState) (m : Mapping) : Prop :=
  match s.vma with
  | some v => Resident s m v
  | none => Unmapped s m

theorem MapInv.of_some (hv : s.vma = some v) (h : Resident s m v) : MapInv s m := by
  unfold MapInv
  rw [hv]
  exact h

theorem MapInv.of_none (hv : s.vma = none) (h : Unmapped s m) : MapInv s m := by
  unfold MapInv
  rw [hv]
  exact h

theorem MapInv.resident (h : MapInv s m) (hv : s.vma = some v) : Resident s m v := by
  unfold MapInv at h
  rwa [hv] at h

theorem MapInv.unmapped (h : MapInv s m) (hv : s.vma = none) : Unmapped s m := by
  unfold MapInv at h
  rwa [hv] at h

namespace Resident

/-- The page of an address that is not mapped is not there. -/
theorem page_none (h : Resident s m v) (hva : m.hi ≤ va) (htop : va < m.top) : s.page va = none := by
  cases hp : s.page va with
  | none => rfl
  | some x =>
    obtain ⟨-, hlt, -⟩ := h.pages _ _ hp
    rcases h.top with heq | ⟨-, hal⟩
    · omega
    · unfold pgsize at hlt hal
      omega

/-- The offset that `mmap_handler` reads from. -/
theorem offset (h : Resident s m v) (hlo : m.lo ≤ va) (hhi : va < m.hi) :
    subInt (v.off + va / pgsize * pgsize) v.start % 2 ^ 32 = va / pgsize * pgsize - m.base ∧
      m.base ≤ va / pgsize * pgsize := by
  have hal := h.place.1
  have hb := h.bound
  have htop : m.hi ≤ m.top := by rcases h.top with heq | ⟨hle, -⟩ <;> omega
  have hl := h.lo
  rw [h.off, h.start]
  unfold subInt u64
  unfold pgsize at hal ⊢
  omega

/-- **A page fault** in the mapping loads the page. -/
theorem handler (h : Resident s m v) (hv : s.vma = some v) (hlo : m.lo ≤ va) (hhi : va < m.hi)
    (hp : s.page va = none) {write : Bool} (hw : write = false → v.permission &&& pteR ≠ 0) :
    ∃ x : UserPage, s.mmapHandler va write = some (s.setPage (va / pgsize) x) ∧
      x.flags = v.permission ∧
      ∀ a, a / pgsize = va / pgsize → x.bytes (a % pgsize) = m.file.getD (a - m.base) 0 := by
  obtain ⟨hoff, hbase⟩ := h.offset hlo hhi
  have hb := h.bound
  have hl := h.lo
  have htop : m.hi ≤ m.top := by rcases h.top with heq | ⟨hle, -⟩ <;> omega
  refine ⟨⟨v.permission, fun k => (readi s.data (va / pgsize * pgsize - m.base) pgsize).getD k 0⟩,
    ?_, rfl, ?_⟩
  · have hin : v.start ≤ va ∧ va < v.stop := by
      rw [h.start, h.stop]
      omega
    simp only [MapState.mmapHandler, hv, Option.bind_eq_bind, Option.bind_some]
    rw [if_pos hin, if_neg (by rintro ⟨hwr, hz⟩; exact hw hwr hz),
      if_neg (by rintro ⟨-, hz⟩; exact h.writable hz), hp, if_neg (by simp), hoff]
  · intro a ha
    have hmod : a % pgsize < pgsize := Nat.mod_lt _ (by decide)
    have hsum : va / pgsize * pgsize - m.base + a % pgsize = a - m.base := by
      unfold pgsize at *
      omega
    have hlt : va / pgsize * pgsize - m.base + pgsize < 2 ^ 32 := by
      unfold pgsize at *
      omega
    show (readi s.data _ pgsize).getD (a % pgsize) 0 = _
    rw [readi_getD hmod hlt, hsum, h.file]

/-- An access to an address that is not mapped is refused. -/
theorem handler_none (h : Resident s m v) (hv : s.vma = some v) (hva : m.hi ≤ va) (write : Bool) :
    s.mmapHandler va write = none := by
  have hout : ¬ (v.start ≤ va ∧ va < v.stop) := by
    rw [h.stop]
    omega
  simp only [MapState.mmapHandler, hv, Option.bind_eq_bind, Option.bind_some]
  rw [if_neg hout]

/-- What is not in memory was not stored to. -/
theorem content_file (h : Resident s m v) (hp : s.page va = none) :
    m.content va = m.file.getD (va - m.base) 0 := by
  have hst : m.stored va = none := by
    cases hst : m.stored va with
    | none => rfl
    | some b =>
      obtain ⟨-, -, hsome⟩ := h.kept va b hst
      rw [MapState.byte_isSome, hp] at hsome
      cases hsome
  rw [Mapping.content, hst, Option.getD_none]

/-- A mapped address reads its byte. -/
theorem reads (h : Resident s m v) (hv : s.vma = some v) (hlo : m.lo ≤ va) (hhi : va < m.hi) :
    s.reads va = some (m.content va) := by
  have hpr := h.readable
  unfold MapState.reads
  cases hp : s.page va with
  | some p =>
    have hflags := (h.pages _ _ hp).2.2
    have hload : p.Loads := by
      unfold UserPage.Loads
      rw [hflags]
      exact hpr
    have hbyte : s.byte va = some (p.bytes (va % pgsize)) := by
      rw [MapState.byte, hp, Option.map_some]
    dsimp only
    rw [MapState.load_eq hp, if_pos hload, hbyte, h.bytes va _ hlo hhi hbyte]
  | none =>
    have hperm : false = false → v.permission &&& pteR ≠ 0 := fun _ => hpr
    obtain ⟨x, hx, hflags, hbytes⟩ := h.handler hv hlo hhi hp hperm
    have hload : x.Loads := by
      unfold UserPage.Loads
      rw [hflags]
      exact hpr
    have hpage : (s.setPage (va / pgsize) x).page va = some x := by
      rw [MapState.setPage_page, if_pos rfl]
    dsimp only
    rw [hx, Option.bind_some, MapState.load_eq hpage, if_pos hload, MapState.setPage_byte, if_pos rfl,
      hbytes va rfl, h.content_file hp]

/-- A store to a page of the mapping succeeds, and its byte is read. -/
theorem store_reads (h : Resident s m v) {u : MapState} {p : UserPage} (hp : u.page va = some p)
    (hflags : p.flags = v.permission) (b : UInt8) :
    ∃ t, u.store va b = some t ∧ t.reads va = some b := by
  have hstores : p.Stores := by
    unfold UserPage.Stores
    rw [hflags]
    exact ⟨h.readable, h.writable⟩
  refine ⟨u.setPage (va / pgsize)
    { p with bytes := Function.update p.bytes (va % pgsize) b }, ?_, ?_⟩
  · simp only [MapState.store, hp, if_pos hstores]
  · have hpage := @MapState.setPage_page u va (va / pgsize)
      { p with bytes := Function.update p.bytes (va % pgsize) b }
    rw [if_pos rfl] at hpage
    have hloads : UserPage.Loads { p with
      bytes := Function.update p.bytes (va % pgsize) b } := hstores.1
    unfold MapState.reads
    rw [hpage]
    dsimp only
    rw [MapState.load_eq hpage, if_pos hloads, MapState.setPage_byte, if_pos rfl]
    exact congrArg some (Function.update_self ..)

/-- A mapped address can be stored to. -/
theorem writes (h : Resident s m v) (hv : s.vma = some v) (hlo : m.lo ≤ va) (hhi : va < m.hi)
    (b : UInt8) : ∃ t, s.writes va b = some t ∧ t.reads va = some b := by
  unfold MapState.writes
  cases hp : s.page va with
  | some p => exact h.store_reads hp (h.pages _ _ hp).2.2 b
  | none =>
    have hwrite : true = false → v.permission &&& pteR ≠ 0 := fun hw => by cases hw
    obtain ⟨x, hx, hflags, -⟩ := h.handler hv hlo hhi hp hwrite
    have hpage : (s.setPage (va / pgsize) x).page va = some x := by
      rw [MapState.setPage_page, if_pos rfl]
    dsimp only
    rw [hx, Option.bind_some]
    exact h.store_reads hpage hflags b

end Resident

/-- **The invariant gives the contents.** -/
theorem MapInv.contents (h : MapInv s m) : m.Contents s := by
  cases hv : s.vma with
  | some v =>
    have hres := h.resident hv
    have hl := hres.lo
    refine ⟨?_, ?_, ?_, ?_⟩
    · intro _ va hlo hhi
      exact hres.reads hv hlo hhi
    · intro _ va hlo hhi b
      exact hres.writes hv hlo hhi b
    · intro _ va hb ht hout
      have hp := hres.page_none (show m.hi ≤ va by omega) ht
      have hh := hres.handler_none hv (show m.hi ≤ va by omega)
      constructor
      · rw [MapState.reads, hp]
        dsimp only
        rw [hh, Option.bind_none]
      · intro b
        rw [MapState.writes, hp]
        dsimp only
        rw [hh, Option.bind_none]
    · intro va _ _ hout b hst
      obtain ⟨hlo, hhi, -⟩ := hres.kept va b hst
      exact absurd ⟨hlo, hhi⟩ hout
  | none =>
    have hun := h.unmapped hv
    have hb := hun.bounds
    refine ⟨?_, ?_, ?_, ?_⟩
    · intro _ va hlo hhi
      omega
    · intro _ va hlo hhi
      omega
    · intro _ va _ _ _
      have hp : s.page va = none := hun.pages _
      have hh : ∀ write, s.mmapHandler va write = none := by
        intro write
        simp only [MapState.mmapHandler, hv, Option.bind_eq_bind, Option.bind_none]
      constructor
      · rw [MapState.reads, hp]
        dsimp only
        rw [hh, Option.bind_none]
      · intro b
        rw [MapState.writes, hp]
        dsimp only
        rw [hh, Option.bind_none]
    · intro va hbase htop _ b hst hlt
      exact hun.saved va hbase htop b hst hlt

/-! ### The steps -/

/-- `sys_mmap` with `PROT_WRITE` of a shared mapping. -/
theorem mmapPermission_spec {e : FtableEntry} {prot flags permission : BitVec 32}
    (h : mmapPermission e prot flags = some permission) (hw : prot &&& protWrite ≠ 0) :
    permission &&& pteW ≠ 0 ∧ (prot &&& protRead ≠ 0 → permission &&& pteR ≠ 0) := by
  unfold mmapPermission at h
  dsimp only at h
  split at h <;> [cases h; skip]
  split at h <;> [cases h; skip]
  by_cases hr : prot &&& protRead ≠ 0
  · rw [if_pos hr] at h
    obtain rfl := Option.some.inj h
    exact ⟨by decide, fun _ => by decide⟩
  · rw [if_neg hr] at h
    obtain rfl := Option.some.inj h
    exact ⟨by decide, fun h => absurd h hr⟩

/-- **`sys_mmap`** where nothing is mapped. -/
theorem MapInv.mmap (h : MapInv s m) (hv : s.vma = none) {f : FileIndex} {e : FtableEntry}
    {data : List UInt8} {start : ℕ} {length : ℤ} {prot flags : BitVec 32} (hp : MapPlace start)
    (hl : IsInt length) (hask : m.Asked (.mmap f e data start length prot flags))
    (hok : s.Keeps (.mmap f e data start length prot flags)) :
    MapInv (s.sysMmap f e data start length prot flags)
      (m.next (.mmap f e data start length prot flags)) := by
  have hun := h.unmapped hv
  obtain ⟨hw, rfl⟩ := hask
  obtain ⟨hal, hlow, hhigh⟩ := hp
  obtain ⟨hl1, hl2⟩ := hl
  unfold MapState.sysMmap Mapping.next
  cases hperm : mmapPermission e prot mapShared with
  | none =>
    simp only [hperm]
    exact h
  | some permission =>
    obtain ⟨hpw, hpr⟩ := mmapPermission_spec hperm hw
    have hread := hpr (hok (by rw [hperm]; rfl))
    simp only [hperm]
    have hmax : maxva = 2 ^ 38 := rfl
    rw [hmax] at hhigh
    have hstop : addInt start length = (start + length).toNat := by
      unfold addInt u64
      omega
    refine MapInv.of_some rfl
      { start := rfl, lo := rfl, stop := hstop, off := rfl, length := ?_, writable := hpw
        shared := show mapShared &&& mapPrivate = 0 by decide, readable := hread
        place := ⟨hal, hlow, by rw [hmax]; exact hhigh⟩
        top := .inl rfl, bound := ?_, pages := ?_, bytes := ?_, kept := ?_, file := rfl }
    · intro hlt
      dsimp only at hlt ⊢
      unfold u64
      omega
    · dsimp only
      omega
    · intro p x hx
      rw [show _ = none from hun.pages p] at hx
      cases hx
    · intro va b _ _ hb
      have hpage : s.pages (va / pgsize) = none := hun.pages _
      simp only [MapState.byte, MapState.page, hpage, Option.map_none] at hb
      cases hb
    · intro va b hst
      cases hst

/-- **A page fault.** -/
theorem Resident.fault (h : Resident s m v) (hv : s.vma = some v) {write : Bool}
    (hn : s.mmapHandler va write = some t) : t.vma = some v ∧ Resident t m v := by
  have hl := h.lo
  -- the fault is in the mapping, at a page that is not there
  have hin : v.start ≤ va ∧ va < v.stop := by
    by_contra hout
    simp only [MapState.mmapHandler, hv, Option.bind_eq_bind, Option.bind_some, if_neg hout] at hn
    cases hn
  have hlo : m.lo ≤ va := by rw [h.lo, ← h.start]; exact hin.1
  have hhi : va < m.hi := by rw [← h.stop]; exact hin.2
  have hp : s.page va = none := by
    by_contra hsome
    rw [← Ne, Option.ne_none_iff_isSome] at hsome
    simp only [MapState.mmapHandler, hv, Option.bind_eq_bind, Option.bind_some,
      if_pos hsome, ite_self] at hn
    cases hn
  have hw : write = false → v.permission &&& pteR ≠ 0 := by
    intro hwr hz
    simp only [MapState.mmapHandler, hv, Option.bind_eq_bind, Option.bind_some, if_pos hin,
      if_pos (And.intro hwr hz)] at hn
    cases hn
  obtain ⟨x, hx, hflags, hbytes⟩ := h.handler hv hlo hhi hp hw
  rw [hx] at hn
  obtain rfl := Option.some.inj hn
  refine ⟨hv, { h with pages := ?_, bytes := ?_, kept := ?_ }⟩
  · intro p y hy
    by_cases hpe : p = va / pgsize
    · subst hpe
      have hxy : x = y := by
        simp only [MapState.setPage, Function.update_self] at hy
        exact Option.some.inj hy
      have hal := h.place.1
      rw [← hxy]
      refine ⟨?_, ?_, hflags⟩
      · unfold pgsize at hal ⊢
        omega
      · unfold pgsize
        omega
    · simp only [MapState.setPage, Function.update_of_ne hpe] at hy
      exact h.pages p y hy
  · intro a b hlo' hhi' hb
    rw [MapState.setPage_byte] at hb
    split at hb
    · rename_i hpage
      rw [hbytes a hpage] at hb
      have hpa : s.page a = none := by
        rw [MapState.page, hpage]
        exact hp
      rw [h.content_file hpa]
      exact (Option.some.inj hb).symm
    · exact h.bytes a b hlo' hhi' hb
  · intro a b hst
    obtain ⟨hlo', hhi', hsome⟩ := h.kept a b hst
    refine ⟨hlo', hhi', ?_⟩
    rw [MapState.setPage_byte]
    split
    · rfl
    · exact hsome

/-- **A store.** -/
theorem Resident.store (h : Resident s m v) {b : UInt8} (hn : s.store va b = some t) :
    Resident t (m.next (.store va b)) v := by
  obtain ⟨p, hp, rfl⟩ := MapState.store_eq hn
  -- the page stays where it is; one byte of it changes
  have hbyte : ∀ a, (s.setPage (va / pgsize)
      { p with bytes := Function.update p.bytes (va % pgsize) b }).byte a =
        if a = va then some b else s.byte a := by
    intro a
    rw [MapState.setPage_byte]
    by_cases hpage : a / pgsize = va / pgsize
    · rw [if_pos hpage]
      by_cases ha : a = va
      · subst ha
        rw [if_pos rfl]
        simp only [Function.update_self]
      · have hne : a % pgsize ≠ va % pgsize := by
          intro he
          apply ha
          rw [← Nat.div_add_mod a pgsize, hpage, he, Nat.div_add_mod]
        have hpa : s.page a = some p := by
          rw [MapState.page, hpage]
          exact hp
        rw [if_neg ha]
        simp only [Function.update_of_ne hne, MapState.byte, hpa, Option.map_some]
    · rw [if_neg hpage, if_neg (by rintro rfl; exact hpage rfl)]
  have hpages : ∀ q x, (s.setPage (va / pgsize)
      { p with bytes := Function.update p.bytes (va % pgsize) b }).pages q = some x →
        m.lo ≤ q * pgsize ∧ q * pgsize < m.hi ∧ x.flags = v.permission := by
    intro q x hx
    by_cases hq : q = va / pgsize
    · subst hq
      simp only [MapState.setPage, Function.update_self] at hx
      obtain rfl := Option.some.inj hx
      exact h.pages _ p hp
    · simp only [MapState.setPage, Function.update_of_ne hq] at hx
      exact h.pages q x hx
  unfold Mapping.next
  dsimp only
  by_cases hin : m.lo ≤ va ∧ va < m.hi
  · rw [if_pos hin]
    refine { h with pages := hpages, bytes := ?_, kept := ?_ }
    · intro a c hlo hhi hc
      rw [hbyte] at hc
      unfold Mapping.content
      dsimp only
      by_cases ha : a = va
      · subst ha
        rw [if_pos rfl] at hc
        rw [Function.update_self, Option.getD_some]
        exact (Option.some.inj hc).symm
      · rw [if_neg ha] at hc
        rw [Function.update_of_ne ha]
        exact h.bytes a c hlo hhi hc
    · intro a c hst
      rw [hbyte]
      by_cases ha : a = va
      · subst ha
        rw [if_pos rfl]
        exact ⟨hin.1, hin.2, rfl⟩
      · rw [if_neg ha]
        dsimp only at hst
        rw [Function.update_of_ne ha] at hst
        exact h.kept a c hst
  · rw [if_neg hin]
    refine { h with pages := hpages, bytes := ?_, kept := ?_ }
    · intro a c hlo hhi hc
      rw [hbyte, if_neg (by rintro rfl; exact hin ⟨hlo, hhi⟩)] at hc
      exact h.bytes a c hlo hhi hc
    · intro a c hst
      obtain ⟨hlo, hhi, hsome⟩ := h.kept a c hst
      rw [hbyte, if_neg (by rintro rfl; exact hin ⟨hlo, hhi⟩)]
      exact ⟨hlo, hhi, hsome⟩

/-! ### Unmapping -/

/-- **`writeback`** of the whole mapping saves what was stored. -/
theorem Resident.writeback (h : Resident s m v) (hlt : m.lo < m.hi) {n : ℤ}
    (hlen : n = (m.hi - m.lo : ℕ)) {room : ℕ → ℕ} (hw : s.WritesBack v)
    (hn : s.writeback v v.start n room = some t) :
    (∃ d, t = { s with data := d }) ∧
      ∀ va b, m.stored va = some b → va - m.base < t.data.length →
        t.data[va - m.base]? = some b := by
  have hl := h.lo
  have hb := h.bound
  have htop : m.hi ≤ m.top := by rcases h.top with heq | ⟨hle, -⟩ <;> omega
  have hplace := h.place.1
  have hhigh : m.base + 2 ^ 31 ≤ 2 ^ 38 := h.place.2.2
  have hnat : n.toNat = m.hi - m.base := by omega
  have hoff : subInt (v.off + m.base) m.base = 0 := by
    rw [h.off]
    unfold subInt u64
    omega
  have hat : MapState.ChunkAt s m.base (m.hi - m.base) s.data 0 := fun _ => ⟨rfl, .inl rfl⟩
  have hloop : ∃ j, s.writebackLoop room 0 m.base (m.hi - m.base) (m.hi - m.base)
      (s.written m.base s.data 0) 0 = s.written m.base s.data j ∧ j ≤ m.hi - m.base ∧
        s.CutOff m.base (m.hi - m.base) s.data j :=
    MapState.writebackLoop_written room hplace (by omega) le_rfl (Nat.zero_le _) hat
  obtain ⟨j, hj, hjn, hcut⟩ := hloop
  unfold MapState.writeback at hn
  rw [if_neg (by rintro (hz | hp) <;> [exact h.writable hz; exact hp h.shared]), h.start,
    if_neg (by omega)] at hn
  dsimp only at hn
  rw [hoff, hnat] at hn
  rw [MapState.written_zero] at hj
  simp only [hj, Option.some.injEq] at hn
  subst hn
  refine ⟨⟨_, rfl⟩, ?_⟩
  intro va b hst hk
  obtain ⟨hlo, hhi, hsome⟩ := h.kept va b hst
  obtain ⟨c, hc⟩ := Option.isSome_iff_exists.1 hsome
  have hcb : c = b := by
    rw [h.bytes va c hlo hhi hc, Mapping.content, hst, Option.getD_some]
  subst hcb
  obtain ⟨k, rfl⟩ : ∃ k, va = m.base + k := ⟨va - m.base, by omega⟩
  rw [Nat.add_sub_cancel_left] at hk ⊢
  dsimp only at hk ⊢
  by_cases hkj : k < j
  · exact MapState.written_getElem? hkj hc
  · -- behind the last chunk, the file has the byte already
    rw [MapState.written_length] at hk
    rw [MapState.written_getElem?_ge (by omega)]
    by_contra hne
    have hkd : k < s.data.length := by omega
    have hdiff : s.Differs v k := by
      refine ⟨by rw [h.start, h.stop]; exact hhi, by rw [h.start]; exact hsome, ?_⟩
      rw [h.start, hc]
      exact fun heq => hne heq.symm
    obtain ⟨hthere, hsmall⟩ := hw k hkd hdiff
    apply hcut k (by omega) (by omega) hkd
    · rw [h.start] at hthere
      exact fun i hi => MapState.byte_of_pages hplace hthere hsome hi
    · rw [h.length hlt, h.lo] at hsmall
      exact hsmall

/-- `uvmunmap` of a range that has all pages. -/
theorem uvmunmap_all {va npages : ℕ} (hn : s.uvmunmap va npages = some t)
    (hall : ∀ p x, s.pages p = some x →
      va ≤ p * pgsize ∧ p * pgsize < (va + npages * pgsize) % 2 ^ 64) :
    (∀ p, t.pages p = none) ∧ t.data = s.data := by
  unfold MapState.uvmunmap at hn
  split at hn <;> [cases hn; skip]
  obtain rfl := Option.some.inj hn
  refine ⟨?_, rfl⟩
  intro p
  dsimp only
  split
  · rfl
  · rename_i hout
    cases hp : s.pages p with
    | none => rfl
    | some x => exact absurd (hall p x hp) hout

/-- **`sys_munmap`** of all that is mapped. -/
theorem Resident.munmapAll (h : Resident s m v) (hlt : m.lo < m.hi) {length : ℤ}
    (hlen : length = (m.hi - m.lo : ℕ)) {room : ℕ → ℕ} (hw : s.WritesBack v)
    (hlast : length % pgsize = 0 ∨ s.byte (v.stop - 1) = none) {u : MapState}
    (ht : s.writeback v v.start length room = some t)
    (hu : t.uvmunmap v.start (u64 (length.tdiv pgsize)) = some u) :
    Unmapped { u with vma := none } (m.next (.munmap m.lo length room)) := by
  have hl := h.lo
  have hb := h.bound
  have htop : m.hi ≤ m.top := by rcases h.top with heq | ⟨hle, -⟩ <;> omega
  have hplace := h.place.1
  have hhigh : m.base + 2 ^ 31 ≤ 2 ^ 38 := h.place.2.2
  obtain ⟨⟨d, rfl⟩, hsaved⟩ := h.writeback hlt hlen hw ht
  have hnp : u64 (length.tdiv pgsize) = (m.hi - m.base) / pgsize := by
    rw [Int.tdiv_eq_ediv_of_nonneg (by omega)]
    unfold u64 pgsize
    omega
  obtain ⟨hpages, hdata⟩ := uvmunmap_all hu (by
    intro p x hx
    obtain ⟨hlo, hhi, -⟩ := h.pages p x hx
    have hnotlast : length % pgsize = 0 ∨ p ≠ (m.hi - 1) / pgsize := by
      rcases hlast with hz | hnone
      · exact .inl hz
      · right
        rintro rfl
        rw [h.stop] at hnone
        have hsome : (s.byte (m.hi - 1)).isSome = true := by
          rw [MapState.byte_isSome, MapState.page, hx]
          rfl
        rw [hnone] at hsome
        cases hsome
    rw [hnp, h.start]
    unfold pgsize at *
    omega)
  have hm : m.next (.munmap m.lo length room) = { m with lo := m.hi } := by
    have hsum : ((m.lo : ℤ) + length).toNat = m.hi := by omega
    simp only [Mapping.next, le_refl, true_and, if_pos hlt, if_true, hsum]
  rw [hm]
  refine ⟨le_rfl, hpages, ?_⟩
  intro va _ _ b hst hk
  rw [hdata] at hk ⊢
  exact hsaved va b hst hk

/-- **`sys_munmap`** of an end that is not in memory. -/
theorem Resident.munmapTail (h : Resident s m v) {addr : ℕ} {length : ℤ} {room : ℕ → ℕ}
    (hlo : m.lo < addr) (hhi : addr < m.hi) (hal : addr % pgsize = 0)
    (hlen : length = (m.hi - addr : ℕ)) (habs : ∀ k < v.stop - addr, s.byte (addr + k) = none) :
    Resident { s with vma := some (v.freeTail length) } (m.next (.munmap addr length room))
      (v.freeTail length) := by
  have hl := h.lo
  have hb := h.bound
  have htop : m.hi ≤ m.top := by rcases h.top with heq | ⟨hle, -⟩ <;> omega
  have hplace := h.place.1
  have hhigh : m.base + 2 ^ 31 ≤ 2 ^ 38 := h.place.2.2
  have hvl := h.length (by omega)
  have hm : m.next (.munmap addr length room) = { m with hi := addr } := by
    have hin : m.lo ≤ addr ∧ addr < m.hi := ⟨by omega, hhi⟩
    simp only [Mapping.next, if_pos hin, if_neg (show ¬ addr = m.lo by omega)]
  have habs' : ∀ va, addr ≤ va → va < m.hi → s.byte va = none := by
    intro va hle hlt
    have hk := habs (va - addr) (by rw [h.stop]; omega)
    rwa [Nat.add_sub_cancel' hle] at hk
  rw [hm]
  refine { h with stop := ?_, length := ?_, top := .inr ⟨by dsimp only; omega, hal⟩, pages := ?_,
                  bytes := ?_, kept := ?_ }
  · unfold VmaSlot.freeTail
    dsimp only
    rw [h.stop]
    unfold subInt u64
    omega
  · intro _
    unfold VmaSlot.freeTail
    dsimp only
    rw [hvl]
    unfold subInt u64
    omega
  · intro p x hx
    obtain ⟨hp1, hp2, hflags⟩ := h.pages p x hx
    refine ⟨hp1, ?_, hflags⟩
    -- the pages of the end are not there
    by_contra hge
    have hnone := habs' (p * pgsize) (by dsimp only at hge; omega) hp2
    have hsome : (s.byte (p * pgsize)).isSome = true := by
      have hpage : s.page (p * pgsize) = some x := by
        rw [MapState.page, Nat.mul_div_cancel _ (by decide)]
        exact hx
      rw [MapState.byte_isSome, hpage]
      rfl
    rw [hnone] at hsome
    cases hsome
  · intro va b hlo' hhi' hb'
    dsimp only at hhi'
    exact h.bytes va b hlo' (by omega) hb'
  · intro va b hst
    obtain ⟨hlo', hhi', hsome⟩ := h.kept va b hst
    refine ⟨hlo', ?_, hsome⟩
    by_contra hge
    dsimp only at hge
    rw [habs' va (by omega) hhi'] at hsome
    cases hsome

/-- **`exit`**, which unmaps everything. -/
theorem Resident.exit (h : Resident s m v) {n : ℤ}
    (hlen : m.lo < m.hi → n = (m.hi - m.lo : ℕ)) {room : ℕ → ℕ} (hw : s.WritesBack v) {u : MapState}
    (ht : s.writeback v v.start n room = some t)
    (hu : t.uvmunmap v.start (pgroundup v.length % 2 ^ 64 / pgsize) = some u) :
    Unmapped { u with live := false, vma := none } (m.next (.exit room)) := by
  have hl := h.lo
  have hb := h.bound
  have htop : m.hi ≤ m.top := by rcases h.top with heq | ⟨hle, -⟩ <;> omega
  have hplace := h.place.1
  have hhigh : m.base + 2 ^ 31 ≤ 2 ^ 38 := h.place.2.2
  by_cases hlt : m.lo < m.hi
  · obtain ⟨⟨d, rfl⟩, hsaved⟩ := h.writeback hlt (hlen hlt) hw ht
    obtain ⟨hpages, hdata⟩ := uvmunmap_all hu (by
      intro p x hx
      obtain ⟨hlo, hhi, -⟩ := h.pages p x hx
      rw [h.length hlt, h.start]
      unfold pgroundup
      unfold pgsize at *
      omega)
    refine ⟨le_rfl, hpages, ?_⟩
    intro va _ _ b hst hk
    dsimp only at hk ⊢
    rw [hdata] at hk ⊢
    exact hsaved va b hst hk
  · -- an empty mapping has no pages, and nothing was stored
    have hpages : ∀ p, s.pages p = none := by
      intro p
      cases hp : s.pages p with
      | none => rfl
      | some x =>
        obtain ⟨hlo, hhi, -⟩ := h.pages p x hp
        omega
    have htp : t.pages = s.pages := by
      unfold MapState.writeback at ht
      split at ht
      · rw [← Option.some.inj ht]
      · split at ht <;> [cases ht; skip]
        rw [← Option.some.inj ht]
    obtain ⟨hnone, -⟩ := uvmunmap_all hu (by
      intro p x hx
      rw [htp, hpages p] at hx
      cases hx)
    refine ⟨le_rfl, hnone, ?_⟩
    intro va _ _ b hst
    obtain ⟨hlo, hhi, -⟩ := h.kept va b hst
    omega

/-! ### Runs -/

/-- **Every step keeps the invariant.** -/
theorem MapInv.step {l : MapLabel} (h : MapInv s m) (hask : m.Asked l) (hok : s.Keeps l)
    (hn : s.next l = some t) : MapInv t (m.next l) := by
  unfold MapState.next at hn
  split at hn <;> [skip; cases hn]
  cases l with
  | mmap f e data start length prot flags =>
    dsimp only at hn
    split at hn <;> [skip; cases hn]
    rename_i hg
    obtain rfl := Option.some.inj hn
    exact h.mmap hg.1 hg.2.1 hg.2.2 hask hok
  | fault va write =>
    cases hv : s.vma with
    | none =>
      simp only [MapState.mmapHandler, hv, Option.bind_eq_bind, Option.bind_none] at hn
      cases hn
    | some v =>
      obtain ⟨htv, ht⟩ := (h.resident hv).fault hv hn
      exact .of_some htv ht
  | load va =>
    obtain ⟨b, -, rfl⟩ := Option.map_eq_some_iff.1 hn
    exact h
  | store va b =>
    cases hv : s.vma with
    | none =>
      have hnone := MapState.store_none (show s.page va = none from (h.unmapped hv).pages _) b
      change s.store va b = some t at hn
      rw [hnone] at hn
      cases hn
    | some v =>
      obtain ⟨p, -, rfl⟩ := MapState.store_eq hn
      exact .of_some hv ((h.resident hv).store hn)
  | munmap addr length room =>
    cases hv : s.vma with
    | none =>
      simp only [MapState.sysMunmap, hv, Option.some.injEq] at hn
      subst hn
      have hun := h.unmapped hv
      have hb := hun.bounds
      rw [show m.next (.munmap addr length room) = m from if_neg (by omega)]
      exact h
    | some v =>
      have hres := h.resident hv
      have hs := hres.start
      have hl := hres.lo
      have he := hres.stop
      simp only [MapState.sysMunmap, hv] at hn
      split at hn
      · rename_i hout
        obtain rfl := Option.some.inj hn
        rw [show m.next (.munmap addr length room) = m from if_neg (by omega)]
        exact h
      · rename_i hin
        rw [not_not] at hin
        obtain ⟨hal, hpos, hend⟩ := hask (by omega) (by omega)
        have hkeep := hok v hv hin.1 hin.2
        split at hn <;> [cases hn; skip]
        split at hn
        · -- from the front: all of it
          rename_i heq
          rw [if_pos heq] at hkeep
          obtain ⟨hall, hlast, hw⟩ := hkeep
          simp only [Option.bind_eq_bind, Option.bind_eq_some_iff] at hn
          obtain ⟨w, hw1, u, hu, hn⟩ := hn
          rw [if_pos hall] at hn
          obtain rfl := Option.some.inj hn
          have hlt : m.lo < m.hi := by omega
          have hvl := hres.length hlt
          have hb := hres.bound
          have htop : m.hi ≤ m.top := by rcases hres.top with heq | ⟨hle, -⟩ <;> omega
          have hlen : length = (m.hi - m.lo : ℕ) := by
            rw [hvl] at hall
            unfold u64 at hall
            omega
          have haddr : addr = m.lo := by omega
          rw [heq] at hw1 hu
          rw [haddr]
          exact .of_none rfl (hres.munmapAll hlt hlen hw hlast hw1 hu)
        · -- an end of it
          rename_i hne
          rw [if_neg hne] at hkeep
          obtain rfl := Option.some.inj hn
          have hlen : length = (m.hi - addr : ℕ) := by omega
          exact .of_some rfl (hres.munmapTail (by omega) (by omega) hal hlen hkeep)
  | exit room =>
    simp only [MapState.exit] at hn
    cases hv : s.vma with
    | none =>
      rw [hv] at hn
      obtain rfl := Option.some.inj hn
      have hun := h.unmapped hv
      exact .of_none rfl { hun with bounds := le_rfl }
    | some v =>
      rw [hv] at hn
      simp only [Option.bind_eq_bind, Option.bind_eq_some_iff] at hn
      obtain ⟨w, hw1, u, hu, hn⟩ := hn
      obtain rfl := Option.some.inj hn
      have hres := h.resident hv
      have hb := hres.bound
      have hl := hres.lo
      have htop : m.hi ≤ m.top := by rcases hres.top with heq | ⟨hle, -⟩ <;> omega
      refine .of_none rfl (hres.exit ?_ (hok v hv) hw1 hu)
      intro hlt
      rw [hres.length hlt]
      unfold toInt32
      omega

/-- **The contents of memory mappings.** In a run of calls that keep the contents, every mapped
address reads the byte of the file at its offset with the stores applied, no unmapped address can be
accessed, and the file holds the last byte that was stored at it. -/
theorem mapping_contents {x : MapState × Mapping} {tr : List MapLabel}
    (h : mappingMachine.Reach (fun x l => x.2.Asked l ∧ x.1.Keeps l) tr x) : x.2.Contents x.1 := by
  have hinv : MapInv x.1 x.2 := by
    refine Reach.inv (P := fun x => MapInv x.1 x.2) ?_ ?_ h
    · rintro ⟨s, m⟩ ⟨-, hv, hp, rfl⟩
      refine .of_none hv ⟨le_rfl, hp, ?_⟩
      intro va _ _ b hst
      cases hst
    · rintro ⟨s, m⟩ l ⟨t, m'⟩ hi ⟨hask, hok⟩ hn
      obtain ⟨t', ht, heq⟩ := Option.map_eq_some_iff.1 hn
      cases heq
      exact hi.step hask hok ht
  exact hinv.contents

/-- A process before it maps a file. -/
def unmappedProcess : MapState × Mapping := (⟨true, [], none, fun _ => none⟩, Mapping.empty)

/-- `sys_mmap` of a file with these bytes, readable and writable, at `VMA_START`. -/
def mapFile (data : List UInt8) (length : ℤ) : MapLabel :=
  .mmap 0 ⟨1, true, true⟩ data vmaStart length (protRead ||| protWrite) mapShared

/-- The end of a run whose calls meet `ok`. -/
def mappedEnd (ok : MapState × Mapping → MapLabel → Prop) [∀ x l, Decidable (ok x l)]
    (tr : List MapLabel) : MapState × Mapping :=
  (mappingMachine.runOk ok unmappedProcess tr).getD unmappedProcess

theorem mappedEnd_reach {ok : MapState × Mapping → MapLabel → Prop} [∀ x l, Decidable (ok x l)]
    {tr : List MapLabel} (h : (mappingMachine.runOk ok unmappedProcess tr).isSome = true) :
    mappingMachine.Reach ok tr (mappedEnd ok tr) :=
  ⟨unmappedProcess, ⟨rfl, rfl, fun _ => rfl, rfl⟩, pathOk_getD h⟩

/-- Map a page over a file of three bytes, store and load, unmap it; map the file again, store, and
end. -/
def wholeRun : List MapLabel :=
  [mapFile [1, 2, 3] pgsize, .fault vmaStart true, .store (vmaStart + 1) 7, .load vmaStart,
    .munmap vmaStart pgsize fun _ => 1, mapFile [1, 7, 3] 3, .fault vmaStart true,
    .store vmaStart 9, .exit fun _ => 1]

theorem wholeRun_reach : mappingMachine.Reach (fun x l => x.2.Asked l ∧ x.1.Keeps l) wholeRun
    (mappedEnd (fun x l => x.2.Asked l ∧ x.1.Keeps l) wholeRun) :=
  mappedEnd_reach (by decide +kernel)

theorem mapping_contents_whole :
    (mappedEnd (fun x l => x.2.Asked l ∧ x.1.Keeps l) wholeRun).2.Contents
        (mappedEnd (fun x l => x.2.Asked l ∧ x.1.Keeps l) wholeRun).1 ∧
      (mappedEnd (fun x l => x.2.Asked l ∧ x.1.Keeps l) wholeRun).1.data = [9, 7, 3] :=
  ⟨mapping_contents wholeRun_reach, by decide +kernel⟩

/-- Unmap the first of two pages: `v->start` moves down, and the page is mapped again. -/
def headRun : List MapLabel := [mapFile [] (2 * pgsize), .munmap vmaStart pgsize fun _ => 0]

/-- Unmap the second of two pages, which is in memory: it stays. -/
def tailRun : List MapLabel :=
  [mapFile [] (2 * pgsize), .fault (vmaStart + pgsize) true,
    .munmap (vmaStart + pgsize) pgsize fun _ => 0]

/-- Store to the second page and unmap both: the first is not in memory, and nothing is written. -/
def gapRun : List MapLabel :=
  [mapFile (List.replicate (pgsize + 1) 0) (2 * pgsize), .fault (vmaStart + pgsize) true,
    .store (vmaStart + pgsize) 7, .munmap vmaStart (2 * pgsize) fun _ => 0]

/-- Unmap a mapping of three bytes: its only page stays. -/
def shortRun : List MapLabel :=
  [mapFile [] 3, .fault vmaStart true, .munmap vmaStart 3 fun _ => 0]

/-- Map with `PROT_WRITE` alone: the first store meets a reserved entry and faults for ever. -/
def writeOnlyRun : List MapLabel :=
  [.mmap 0 ⟨1, true, true⟩ [] vmaStart pgsize protWrite mapShared]

/-- **The contents break** where the front of a mapping is unmapped, an end in memory, a mapping
whose last page is not whole, or one with a page missing before a page that was stored to, and
where a mapping is not asked to be readable. -/
theorem mapping_contents_breaks : [headRun, tailRun, gapRun, shortRun, writeOnlyRun].Forall fun tr =>
    ∃ x, mappingMachine.Reach (fun x l => x.2.Asked l) tr x ∧ ¬ x.2.Contents x.1 := by
  apply List.forall_iff_forall_mem.mpr
  intro tr htr
  refine ⟨mappedEnd (fun x l => x.2.Asked l) tr, ?_, ?_⟩
  · apply mappedEnd_reach
    revert tr
    decide +kernel
  · intro h
    simp only [List.mem_cons, List.not_mem_nil, or_false] at htr
    rcases htr with rfl | rfl | rfl | rfl | rfl
    · have hgone := (h.gone (by decide +kernel) vmaStart (by decide +kernel) (by decide +kernel)
        (by decide +kernel)).1
      revert hgone
      decide +kernel
    · have hgone := (h.gone (by decide +kernel) (vmaStart + pgsize) (by decide +kernel)
        (by decide +kernel) (by decide +kernel)).1
      revert hgone
      decide +kernel
    · have hsaved := h.saved (vmaStart + pgsize) (by decide +kernel) (by decide +kernel)
        (by decide +kernel) 7 (by decide +kernel) (by decide +kernel)
      revert hsaved
      decide +kernel
    · have hgone := (h.gone (by decide +kernel) vmaStart (by decide +kernel) (by decide +kernel)
        (by decide +kernel)).1
      revert hgone
      decide +kernel
    · obtain ⟨t, ht, -⟩ := h.writes (by decide +kernel) vmaStart (by decide +kernel)
        (by decide +kernel) 0
      have hnone : ((mappedEnd (fun x l => x.2.Asked l) writeOnlyRun).1.writes vmaStart 0).isSome =
          false := by decide +kernel
      rw [ht] at hnone
      cases hnone

end AgentOS
