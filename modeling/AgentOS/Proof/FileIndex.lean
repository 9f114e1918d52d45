import AgentOS.Model.FileIndex

/-!
# What is in the file index

* `Indexed t L`: the postings of the index are those of `L`, in this order, and the chain of
  each bucket runs through the postings whose attribute hashes to it.
* `indexed_add`: a posting that is added extends `L`.
* `indexed_rebuild`: after a rebuild `L` is every attribute of every file in the table, which
  the array of postings has room for.
-/

namespace AgentOS

open Chain

/-- The bucket of an attribute. -/
def InodeAttr.bucket (a : InodeAttr) : Fin agentFileIndexBuckets := fileAttrHash a.key a.value

/-- A file of the table and one of its attributes. -/
abbrev Posted := Fin agentFileMetaMax × InodeAttr

/-- **The invariant of the index.** -/
structure Indexed (t : AgentFileIndex) (L : List Posted) : Prop where
  room : L.length ≤ agentFilePostingMax
  used : ∀ s, (t.filePostings s).used = decide ((s : ℕ) < L.length)
  entry : ∀ s : Fin agentFilePostingMax, ∀ h : (s : ℕ) < L.length,
    (t.filePostings s).entryIdx = L[(s : ℕ)].1
  key : ∀ s : Fin agentFilePostingMax, ∀ h : (s : ℕ) < L.length,
    streq (t.filePostings s).key L[(s : ℕ)].2.key = true
  value : ∀ s : Fin agentFilePostingMax, ∀ h : (s : ℕ) < L.length,
    streq (t.filePostings s).value L[(s : ℕ)].2.value = true
  chain : ∀ b, ∃ l, Linked (fun s => (t.filePostings s).next) (t.fileIndex b) l ∧ l.Nodup ∧
    ∀ s, s ∈ l ↔ ∃ h : (s : ℕ) < L.length, L[(s : ℕ)].2.bucket = b

section

variable {t : AgentFileIndex} {L : List Posted} {i : Fin agentFileMetaMax} {a : InodeAttr}

theorem streq_safestrcpy {s : List UInt8} {n : ℕ} (h : strlen s < n) :
    streq (safestrcpy s n) s = true := by
  have hc : cstr (cstr s) = cstr s := by
    have := cstr_take s (cstr s).length
    rwa [List.take_length] at this
  unfold streq
  rw [safestrcpy_of_lt h, hc]
  exact beq_self_eq_true _

theorem indexed_reset (t : AgentFileIndex) : Indexed (fileIndexReset t) [] where
  room := Nat.zero_le _
  used := fun _ => rfl
  entry := fun _ h => absurd h (Nat.not_lt_zero _)
  key := fun _ h => absurd h (Nat.not_lt_zero _)
  value := fun _ h => absurd h (Nat.not_lt_zero _)
  chain := fun _ => ⟨[], .nil, List.nodup_nil, fun _ =>
    ⟨fun h => (List.not_mem_nil h).elim, fun h => absurd h.1 (Nat.not_lt_zero _)⟩⟩

/-- The first free posting is the one behind those in use. -/
theorem Indexed.free (h : Indexed t L) (hroom : L.length < agentFilePostingMax) :
    Table.first t.filePostings (fun p => !p.used) = some ⟨L.length, hroom⟩ := by
  refine Table.first_eq_of_least ?_ fun j hj => ?_
  · rw [h.used]
    simp
  · have hlt : (j : ℕ) < L.length := hj
    rw [h.used]
    simpa using hlt

/-- **A posting is added.** -/
theorem indexed_add (h : Indexed t L) (hroom : L.length < agentFilePostingMax) :
    Indexed (fileAddPosting t i a.key a.value) (L ++ [(i, a)]) := by
  unfold fileAddPosting
  rw [h.free hroom]
  dsimp only
  -- a slot of the longer list is an old one or the new one
  have hlast : ∀ {s : Fin agentFilePostingMax}, (s : ℕ) < (L ++ [(i, a)]).length →
      (s : ℕ) < L.length ∧ s ≠ ⟨L.length, hroom⟩ ∨ s = ⟨L.length, hroom⟩ := by
    intro s hs
    rw [List.length_append, List.length_singleton] at hs
    rcases Nat.lt_succ_iff_lt_or_eq.1 hs with hlt | heq
    · exact .inl ⟨hlt, fun he => absurd (congrArg Fin.val he) (by simp; omega)⟩
    · exact .inr (Fin.ext heq)
  refine ⟨?_, ?_, ?_, ?_, ?_, ?_⟩
  · rw [List.length_append, List.length_singleton]
    omega
  · intro s
    by_cases hs : s = ⟨L.length, hroom⟩
    · subst hs
      simp
    · dsimp only
      rw [Function.update_of_ne hs, h.used, decide_eq_decide, List.length_append,
        List.length_singleton]
      have : (s : ℕ) ≠ L.length := fun he => hs (Fin.ext he)
      omega
  · intro s hs
    dsimp only
    rcases hlast hs with ⟨hlt, hne⟩ | rfl
    · rw [Function.update_of_ne hne, h.entry s hlt, List.getElem_append_left hlt]
    · simp
  · intro s hs
    dsimp only
    rcases hlast hs with ⟨hlt, hne⟩ | rfl
    · rw [Function.update_of_ne hne, List.getElem_append_left hlt]
      exact h.key s hlt
    · simpa using streq_safestrcpy a.key_lt
  · intro s hs
    dsimp only
    rcases hlast hs with ⟨hlt, hne⟩ | rfl
    · rw [Function.update_of_ne hne, List.getElem_append_left hlt]
      exact h.value s hlt
    · simpa using streq_safestrcpy a.value_lt
  · intro b
    obtain ⟨l, hl, hnd, hmem⟩ := h.chain b
    have hfresh : (⟨L.length, hroom⟩ : Fin agentFilePostingMax) ∉ l := fun hm =>
      absurd ((hmem _).1 hm).1 (lt_irrefl _)
    have hold : ∀ s, s ∈ l ↔ s ≠ ⟨L.length, hroom⟩ ∧
        ∃ hs : (s : ℕ) < (L ++ [(i, a)]).length, (L ++ [(i, a)])[(s : ℕ)].2.bucket = b := by
      intro s
      constructor
      · intro hs
        obtain ⟨hlt, hb⟩ := (hmem s).1 hs
        refine ⟨fun he => hfresh (he ▸ hs), by simp; omega, ?_⟩
        rwa [List.getElem_append_left hlt]
      · rintro ⟨hne, hs, hb⟩
        rcases hlast hs with ⟨hlt, -⟩ | rfl
        · rw [List.getElem_append_left hlt] at hb
          exact (hmem s).2 ⟨hlt, hb⟩
        · exact absurd rfl hne
    have hupd : (fun s => (Function.update t.filePostings ⟨L.length, hroom⟩
        { used := true, entryIdx := i, next := t.fileIndex (fileAttrHash a.key a.value),
          key := safestrcpy a.key inodeAttrKeyMax,
          value := safestrcpy a.value inodeAttrValueMax } s).next) =
        Function.update (fun s => (t.filePostings s).next) ⟨L.length, hroom⟩
          (t.fileIndex (fileAttrHash a.key a.value)) := by
      funext s
      by_cases hs : s = ⟨L.length, hroom⟩
      · subst hs
        rw [Function.update_self, Function.update_self]
      · rw [Function.update_of_ne hs, Function.update_of_ne hs]
    dsimp only
    rw [hupd]
    by_cases hb : b = fileAttrHash a.key a.value
    · -- the bucket of the new posting
      subst hb
      refine ⟨⟨L.length, hroom⟩ :: l, ?_, List.nodup_cons.2 ⟨hfresh, hnd⟩, fun s => ?_⟩
      · rw [Function.update_self]
        exact hl.push hfresh
      · rw [List.mem_cons, hold]
        constructor
        · rintro (rfl | ⟨-, hs⟩)
          · exact ⟨by simp, by simp [InodeAttr.bucket]⟩
          · exact hs
        · intro hs
          by_cases he : s = ⟨L.length, hroom⟩
          · exact .inl he
          · exact .inr ⟨he, hs⟩
    · refine ⟨l, ?_, hnd, fun s => ?_⟩
      · rw [Function.update_of_ne hb]
        refine hl.frame fun j hj => ?_
        rw [Function.update_of_ne]
        rintro rfl
        exact hfresh hj
      · rw [hold]
        constructor
        · exact fun hs => hs.2
        · intro hs
          refine ⟨?_, hs⟩
          rintro rfl
          obtain ⟨hlt, he⟩ := hs
          rw [List.getElem_append_right le_rfl] at he
          simp only [Nat.sub_self, List.getElem_cons_zero] at he
          exact hb he.symm

/-! ### The rebuild -/

/-- The postings of a file: its attributes, if it is in use. -/
def postedOf (t : AgentFileIndex) (i : Fin agentFileMetaMax) : List Posted :=
  if (t.fileMeta i).used then (t.fileMeta i).attrs.map fun a => (i, a) else []

/-- The postings of the table. -/
def postedAll (t : AgentFileIndex) : List Posted :=
  (List.finRange agentFileMetaMax).flatMap (postedOf t)

/-- Every file of the table has at most `INODE_ATTR_MAX` attributes. -/
def AttrsFit (t : AgentFileIndex) : Prop :=
  ∀ i, (t.fileMeta i).used = true → (t.fileMeta i).attrs.length ≤ inodeAttrMax

@[simp] theorem fileAddPosting_meta (e : ℕ) (key value : List UInt8) :
    (fileAddPosting t e key value).fileMeta = t.fileMeta := by
  unfold fileAddPosting
  split <;> rfl

theorem foldl_add_meta (attrs : List InodeAttr) :
    (attrs.foldl (fun t a => fileAddPosting t i a.key a.value) t).fileMeta = t.fileMeta := by
  induction attrs generalizing t with
  | nil => rfl
  | cons a attrs ih => rw [List.foldl_cons, ih, fileAddPosting_meta]

@[simp] theorem filePostEntry_meta : (filePostEntry t i).fileMeta = t.fileMeta := by
  unfold filePostEntry
  split
  · exact foldl_add_meta _
  · rfl

theorem foldl_post_meta (l : List (Fin agentFileMetaMax)) :
    (l.foldl filePostEntry t).fileMeta = t.fileMeta := by
  induction l generalizing t with
  | nil => rfl
  | cons i l ih => rw [List.foldl_cons, ih, filePostEntry_meta]

@[simp] theorem fileRebuildPostings_meta : (fileRebuildPostings t).fileMeta = t.fileMeta := by
  unfold fileRebuildPostings
  rw [foldl_post_meta]
  rfl

/-- The attributes of one file are posted, if there is room. -/
theorem indexed_attrs (attrs : List InodeAttr) (h : Indexed t L)
    (hroom : L.length + attrs.length ≤ agentFilePostingMax) :
    Indexed (attrs.foldl (fun t a => fileAddPosting t i a.key a.value) t)
      (L ++ attrs.map fun a => (i, a)) := by
  induction attrs generalizing t L with
  | nil => simpa using h
  | cons a attrs ih =>
    rw [List.length_cons] at hroom
    have hadd := indexed_add (i := i) (a := a) h (by omega)
    have hrest := ih hadd (by rw [List.length_append, List.length_singleton]; omega)
    rw [List.append_assoc, List.singleton_append] at hrest
    rwa [List.foldl_cons, List.map_cons]

theorem postedOf_length (hfit : AttrsFit t) (i : Fin agentFileMetaMax) :
    (postedOf t i).length ≤ inodeAttrMax := by
  unfold postedOf
  split
  · rename_i hu
    rw [List.length_map]
    exact hfit i hu
  · exact Nat.zero_le _

/-- The files of a part of the table are posted, if there is room for all of it. -/
theorem indexed_entries (l : List (Fin agentFileMetaMax)) (hfit : AttrsFit t) (h : Indexed t L)
    (hroom : L.length + l.length * inodeAttrMax ≤ agentFilePostingMax) :
    Indexed (l.foldl filePostEntry t) (L ++ l.flatMap (postedOf t)) := by
  induction l generalizing t L with
  | nil => simpa using h
  | cons i l ih =>
    rw [List.length_cons, Nat.succ_mul] at hroom
    have hlen := postedOf_length hfit i
    have hstep : Indexed (filePostEntry t i) (L ++ postedOf t i) := by
      unfold filePostEntry postedOf at *
      split
      · rename_i hu
        rw [if_pos hu, List.length_map] at hlen
        exact indexed_attrs _ h (by omega)
      · simpa using h
    have hposted : postedOf (filePostEntry t i) = postedOf t := by
      unfold postedOf
      rw [filePostEntry_meta]
    have hfit' : AttrsFit (filePostEntry t i) := by
      unfold AttrsFit
      rw [filePostEntry_meta]
      exact hfit
    have hrest := ih hfit' hstep (by rw [List.length_append]; omega)
    rw [hposted, List.append_assoc] at hrest
    rwa [List.foldl_cons, List.flatMap_cons]

/-- **A rebuild posts every attribute of every file.** -/
theorem indexed_rebuild (hfit : AttrsFit t) : Indexed (fileRebuildPostings t) (postedAll t) := by
  have hroom : ([] : List Posted).length + (List.finRange agentFileMetaMax).length * inodeAttrMax ≤
      agentFilePostingMax := by
    rw [List.length_finRange, List.length_nil, Nat.zero_add]
  have h := indexed_entries (List.finRange agentFileMetaMax) (t := fileIndexReset t) hfit
    (indexed_reset t) hroom
  rw [List.nil_append] at h
  exact h

theorem mem_postedAll {x : Posted} :
    x ∈ postedAll t ↔ (t.fileMeta x.1).used = true ∧ x.2 ∈ (t.fileMeta x.1).attrs := by
  unfold postedAll
  rw [List.mem_flatMap]
  constructor
  · rintro ⟨i, -, hx⟩
    unfold postedOf at hx
    split at hx
    · obtain ⟨a, ha, rfl⟩ := List.mem_map.1 hx
      exact ⟨‹_›, ha⟩
    · exact (List.not_mem_nil hx).elim
  · rintro ⟨hu, ha⟩
    refine ⟨x.1, List.mem_finRange _, ?_⟩
    unfold postedOf
    rw [if_pos hu]
    exact List.mem_map.2 ⟨x.2, ha, rfl⟩

/-- No file has two attributes with the same key. -/
def KeysDistinct (t : AgentFileIndex) : Prop :=
  ∀ i, (t.fileMeta i).used = true →
    (t.fileMeta i).attrs.Pairwise fun a b => streq a.key b.key = false

/-- Two postings of the same file have different keys. -/
theorem postedAll_pairwise (h : KeysDistinct t) :
    (postedAll t).Pairwise fun x y => x.1 = y.1 → streq x.2.key y.2.key = false := by
  unfold postedAll
  rw [List.pairwise_flatMap]
  refine ⟨fun i _ => ?_, ?_⟩
  · unfold postedOf
    split
    · rw [List.pairwise_map]
      refine (h i ‹_›).imp fun {a b} hab => ?_
      intro _
      exact hab
    · exact List.Pairwise.nil
  · refine (List.nodup_finRange agentFileMetaMax).imp fun {i j} hij x hx y hy he => ?_
    have hfst : ∀ {k : Fin agentFileMetaMax} {x : Posted}, x ∈ postedOf t k → x.1 = k := by
      intro k x hx
      unfold postedOf at hx
      split at hx
      · obtain ⟨a, -, rfl⟩ := List.mem_map.1 hx
        rfl
      · exact (List.not_mem_nil hx).elim
    exact absurd ((hfst hx).symm.trans (he.trans (hfst hy))) hij

end

end AgentOS
