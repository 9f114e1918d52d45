import AgentOS.Model.Patch
import AgentOS.Proof.Writeback

/-!
# A patch replaces the first occurrence, or loses the file

* `ReplacedFirst`: one text is another with the first occurrence of a pattern replaced.
* `strFind_first`, `patched_replaces`: the search finds the first occurrence, and the patched
  content replaces it.
* `writei_blocks`: what `writei` stores in a file that `itrunc` has emptied.
* `patchLocked_cases`: the call under the lock answers an error before `itrunc`, or it stores
  the patched text as far as there are blocks.
* `patch_file_atomic`: the call is atomic if and only if the disk takes the whole text, or what
  it takes is the old content.
* `patch_file_truncates`: a file emptied.
-/

namespace AgentOS

/-- `D` is `C` with the first occurrence of `old` in it, up to its first NUL, replaced. -/
def ReplacedFirst (C old newtext D : List UInt8) : Prop :=
  ∃ pre post, C = pre ++ old ++ post ∧ D = pre ++ newtext ++ post ∧ pre ++ old <+: cstr C ∧
    ∀ i < pre.length, ¬ old <+: (cstr C).drop i

/-- **Atomic**: the call replaces the first occurrence, or it leaves the content alone. -/
def PatchAtomic (C old newtext D : List UInt8) (resp : AgentToolResponse) : Prop :=
  (resp.status = agentToolOk → ReplacedFirst C old newtext D) ∧
    (resp.status ≠ agentToolOk → D = C)

/-- The disk takes the patched text, or what it takes is the old content. -/
def DiskTakes (C old newtext : List UInt8) (free : ℕ) : Prop :=
  ∀ off, strFind C old = some off → (patched C old newtext off).length < pgsize - 1 →
    (patched C old newtext off).length ≤ free * bsize ∨
      (patched C old newtext off).take (free * bsize) = C

section

variable {C old newtext : List UInt8} {off free : ℕ}

/-! ### The search -/

theorem strFind_first (h : strFind C old = some off) :
    off < (cstr C).length ∧ old <+: (cstr C).drop off ∧
      ∀ i < off, ¬ old <+: (cstr C).drop i := by
  unfold strFind at h
  obtain ⟨hpre, hmem, hbefore⟩ := List.find?_range_eq_some.1 h
  refine ⟨List.mem_range.1 hmem, List.isPrefixOf_iff_prefix.1 hpre, ?_⟩
  intro i hi hpre'
  have hnot := hbefore i hi
  rw [List.isPrefixOf_iff_prefix.2 hpre'] at hnot
  exact absurd hnot (by decide)

theorem cstr_prefix (s : List UInt8) : cstr s <+: s := List.takeWhile_prefix _

/-- The patched content replaces the first occurrence. -/
theorem patched_replaces (h : strFind C old = some off) :
    ReplacedFirst C old newtext (patched C old newtext off) := by
  obtain ⟨hoff, ⟨rest, hrest⟩, hfirst⟩ := strFind_first h
  obtain ⟨tail, htail⟩ := cstr_prefix C
  have hle : off ≤ (cstr C).length := hoff.le
  have htake : C.take off = (cstr C).take off := by
    rw [← htail, List.take_append_of_le_length hle]
    rw [htail]
  have hsplit : cstr C = (cstr C).take off ++ old ++ rest := by
    rw [List.append_assoc, hrest, List.take_append_drop]
  have hC : C = C.take off ++ old ++ (rest ++ tail) := by
    rw [htake, ← List.append_assoc, ← hsplit, htail]
  have hlen : (C.take off).length = off := by
    have hlong := congrArg List.length htail
    rw [List.length_append] at hlong
    rw [List.length_take]
    omega
  refine ⟨C.take off, C.drop (off + old.length), ?_, rfl, ?_, ?_⟩
  · have hdrop : C.drop (off + old.length) = rest ++ tail := by
      have hpre : (C.take off ++ old).length = off + old.length := by
        rw [List.length_append, hlen]
      calc C.drop (off + old.length) = (C.take off ++ old ++ (rest ++ tail)).drop
            (C.take off ++ old).length := by rw [← hC, hpre]
        _ = rest ++ tail := List.drop_left
    rw [hdrop]
    exact hC
  · rw [htake]
    exact ⟨rest, hsplit.symm⟩
  · rw [hlen]
    exact hfirst

/-! ### The call -/

/-- What `writei` stores of a text in an empty file. -/
theorem writei_blocks {out : List UInt8} (hout : out.length < pgsize - 1) :
    writei [] 0 out (free * bsize) =
      (out.take (free * bsize), ((min (free * bsize) out.length : ℕ) : ℤ)) := by
  have hrej : ¬ writeiRejects [] 0 out.length := by
    unfold pgsize at hout
    unfold writeiRejects maxFileSize bsize
    simp only [List.length_nil]
    omega
  rw [writei_eq hrej (fun _ => by rw [Nat.zero_add]; exact Nat.mul_mod_left ..)]
  simp [overlay]

/-- **What the call under the lock does**: an error before `itrunc`, or it stores what the disk
takes of the patched text, and answers OK if that is all. -/
theorem patchLocked_cases (ip : FileInode) (hs : ip.data.length < pgsize - 1) :
    ((patchLocked .file ip old newtext free).1 = ip ∧
        (patchLocked .file ip old newtext free).2.status ≠ agentToolOk ∧
        ∀ off, strFind ip.data old = some off →
          pgsize - 1 ≤ (patched ip.data old newtext off).length) ∨
      ∃ off, strFind ip.data old = some off ∧
        (patched ip.data old newtext off).length < pgsize - 1 ∧
        (patchLocked .file ip old newtext free).1.data =
          (patched ip.data old newtext off).take (free * bsize) ∧
        ((patchLocked .file ip old newtext free).2.status = agentToolOk ↔
          (patched ip.data old newtext off).length ≤ free * bsize) := by
  have hvalid : ¬ (InodeType.file ≠ .file ∨ pgsize - 1 ≤ ip.data.length) := by
    rintro (h | h)
    · exact h rfl
    · omega
  unfold patchLocked
  rw [if_neg hvalid]
  cases hfind : strFind ip.data old with
  | none => exact .inl ⟨rfl, show agentToolErrBadParam ≠ agentToolOk by decide, by simp⟩
  | some off =>
    dsimp only
    split
    · rename_i hlarge
      refine .inl ⟨rfl, show agentToolErrNoSpace ≠ agentToolOk by decide, ?_⟩
      intro off' hoff'
      rw [← Option.some.inj hoff']
      exact hlarge
    · rename_i hsmall
      rw [not_le] at hsmall
      rw [writei_blocks hsmall]
      refine .inr ⟨off, rfl, hsmall, ?_⟩
      split
      · rename_i hshort
        refine ⟨rfl, ?_⟩
        constructor
        · intro h
          exact absurd h (show agentToolErrBadParam ≠ agentToolOk by decide)
        · intro h
          omega
      · rename_i hall
        refine ⟨rfl, ?_⟩
        constructor
        · intro _
          omega
        · intro _
          rfl

/-- The part of the call under the lock is atomic if and only if the disk takes the text. -/
theorem patchLocked_atomic (ip : FileInode) (hs : ip.data.length < pgsize - 1) :
    PatchAtomic ip.data old newtext (patchLocked .file ip old newtext free).1.data
        (patchLocked .file ip old newtext free).2 ↔
      DiskTakes ip.data old newtext free := by
  rcases patchLocked_cases ip hs with ⟨hip, hstatus, hlarge⟩ | ⟨off, hfind, hsmall, hdata, hok⟩
  · -- an error before `itrunc`
    constructor
    · intro _ off hfind hsmall
      exact absurd (hlarge off hfind) (not_le.2 hsmall)
    · intro _
      exact ⟨fun h => absurd h hstatus, fun _ => by rw [hip]⟩
  · constructor
    · intro h off' hfind' _
      obtain rfl : off = off' := Option.some.inj (hfind.symm.trans hfind')
      by_cases hfit : (patched ip.data old newtext off).length ≤ free * bsize
      · exact .inl hfit
      · exact .inr (hdata.symm.trans (h.2 fun hst => hfit (hok.1 hst)))
    · intro h
      refine ⟨fun hst => ?_, fun hst => ?_⟩
      · rw [hdata, List.take_of_length_le (hok.1 hst)]
        exact patched_replaces hfind
      · rcases h off hfind hsmall with hfit | heq
        · exact absurd (hok.2 hfit) hst
        · rw [hdata, heq]

end

/-- The call changes no other inode. -/
theorem toolPatchFile_others (params : List UInt8) (kalloc : Bool)
    (namei : List UInt8 → Option InodeKey) (inodes : InodeKey → InodeType × FileInode) (free : ℕ)
    {req : PatchRequest} (hreq : patchRequest params = .ok req) {k : InodeKey}
    (hk : namei req.path ≠ some k) :
    (toolPatchFile params kalloc namei inodes free).1 k = inodes k := by
  unfold toolPatchFile
  rw [hreq]
  dsimp only
  split
  · rfl
  · split
    · rfl
    · rename_i k' hk'
      have hne : k ≠ k' := fun he => hk (by rw [hk', he])
      exact Function.update_of_ne hne ..

/-- **A patch is atomic** if and only if there is no memory for it, or the disk takes its text. -/
theorem patch_file_atomic (params : List UInt8) (req : PatchRequest)
    (hreq : patchRequest params = .ok req) (kalloc : Bool) (namei : List UInt8 → Option InodeKey)
    (k : InodeKey) (hk : namei req.path = some k) (inodes : InodeKey → InodeType × FileInode)
    (hfile : (inodes k).1 = .file) (hs : (inodes k).2.data.length < pgsize - 1) (free : ℕ) :
    PatchAtomic (inodes k).2.data req.old req.newtext
        ((toolPatchFile params kalloc namei inodes free).1 k).2.data
        (toolPatchFile params kalloc namei inodes free).2 ↔
      (kalloc = false ∨ DiskTakes (inodes k).2.data req.old req.newtext free) := by
  unfold toolPatchFile
  rw [hreq]
  dsimp only
  by_cases hm : kalloc = false
  · rw [if_pos hm]
    have hstatus : agentToolErrNoSpace ≠ agentToolOk := by decide
    exact iff_of_true ⟨fun h => absurd h hstatus, fun _ => rfl⟩ (.inl hm)
  · rw [if_neg hm, hk]
    dsimp only
    rw [Function.update_self, hfile, patchLocked_atomic _ hs]
    exact ⟨.inr, fun h => h.resolve_left hm⟩

/-- The inodes of a disk with the one file `k` of content `C`. -/
def oneInode (C : List UInt8) : InodeKey → InodeType × FileInode :=
  fun _ => (.file, { FileInode.zero with data := C })

/-- `patch_file` on the file `/a`. -/
def patchA (old newtext : String) : List UInt8 := lit ("path=/a;op=replace;old=" ++ old ++ ";new=" ++ newtext)

/-- A patch of `xBUGy` with one free block. -/
theorem patch_file_atomic_fits :
    PatchAtomic (lit "xBUGy") (lit "BUG") (lit "ok")
      ((toolPatchFile (patchA "BUG" "ok") true (fun _ => some (1, 2)) (oneInode (lit "xBUGy")) 1).1
        (1, 2)).2.data
      (toolPatchFile (patchA "BUG" "ok") true (fun _ => some (1, 2)) (oneInode (lit "xBUGy")) 1).2 := by
  have htakes : DiskTakes (lit "xBUGy") (lit "BUG") (lit "ok") 1 := by
    intro off hoff hsmall
    refine .inl ?_
    have h1 : off = 1 := by
      have hfind : strFind (lit "xBUGy") (lit "BUG") = some 1 := by decide +kernel
      exact (Option.some.inj (hfind.symm.trans hoff)).symm
    rw [h1]
    decide +kernel
  exact (patch_file_atomic (patchA "BUG" "ok") ⟨lit "/a", lit "BUG", lit "ok"⟩ (by decide +kernel)
    true (fun _ => some (1, 2)) (1, 2) rfl (oneInode (lit "xBUGy")) rfl (by decide +kernel) 1).2
    (.inr htakes)

/-- One block of text that starts with `BUG`. -/
def fullBlock : List UInt8 := lit "BUG" ++ List.replicate 1021 97

/-- On a full disk, where only the block of the file itself is free after `itrunc`, a patch that
grows the file answers an error, and the file has changed. -/
theorem patch_file_truncates :
    let r := toolPatchFile (patchA "BUG" "fixed") true (fun _ => some (1, 2)) (oneInode fullBlock) 1
    r.2.status = agentToolErrBadParam ∧
      (r.1 (1, 2)).2.data = lit "fixed" ++ List.replicate 1019 97 ∧
      ¬ PatchAtomic fullBlock (lit "BUG") (lit "fixed") (r.1 (1, 2)).2.data r.2 := by
  intro r
  have hrun : r.2.status = agentToolErrBadParam ∧
      (r.1 (1, 2)).2.data = lit "fixed" ++ List.replicate 1019 97 := by decide +kernel
  refine ⟨hrun.1, hrun.2, ?_⟩
  rintro ⟨-, h⟩
  have hlost := h (by rw [hrun.1]; decide)
  rw [hrun.2] at hlost
  exact absurd hlost (by decide +kernel)

end AgentOS
