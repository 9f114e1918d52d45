import Mathlib.Data.Finmap
import AgentOS.Model.Attributes
import AgentOS.Proof.Numbers
import AgentOS.Proof.ResultText

/-!
# Attributes as finite maps

* `AttrMap`, `AttrStore.next`: what the three tools are for, on one finite map a file, with the
  complete texts of the parameters and at most four keys.
* `attrMap_set`, `attrMap_append`, `attrMap_del`: what the tools do to the array of an inode, as
  operations on its map.
* `AttrCall.Short`: the texts of a call fit the buffers that it copies them to.
* **`attrs_follow_maps`**: in a run of such calls every answer and every attribute is that of the
  maps; `attrs_collide` is what happens to longer keys.
-/

namespace AgentOS

open Machine

/-! ### The maps -/

/-- **The attributes of a file**: keys and their values. -/
abbrev AttrMap : Type := Finmap fun _ : List UInt8 => List UInt8

/-- The maps of all files, and the last answer. -/
structure AttrStore where
  maps : ℕ → AttrMap
  resp : ℤ × List UInt8

namespace AttrStore

/-- An answer, and nothing else. -/
def answer (m : AttrStore) (status : ℤ) (result : List UInt8) : AttrStore :=
  { m with resp := (status, result) }

/-- A change of the map of file `i`, and its answer. -/
def put (m : AttrStore) (i : ℕ) (x : AttrMap) (result : List UInt8) : AttrStore :=
  ⟨Function.update m.maps i x, (agentToolOk, result)⟩

/-- The answer of `get_file_attr` to a key that has a value. -/
def getText (path key value : List UInt8) : List UInt8 :=
  lit "\x7bstatus=ok,path=" ++ path ++ lit "," ++ key ++ lit "=" ++ value ++ lit "\x7d"

/-- **What the tools are for**: to insert, look up and erase the complete key that the caller wrote,
while a file has at most four. The paths lead where they lead in `t`. -/
def next (t : FileTree) (m : AttrStore) : AttrCall → AttrStore
  | .set cwd params =>
    let params := safestrcpy params agentToolParamMax
    match paramText params (lit "path"), paramText params (lit "key"),
        paramText params (lit "value") with
    | some path, some key, some value =>
      match namei t cwd path with
      | none => m.answer agentToolErrBadParam (lit "file not found")
      | some i =>
        if (t i).type ≠ .file then m.answer agentToolErrBadParam (lit "not a file")
        else if key ∈ m.maps i ∨ (m.maps i).keys.card < inodeAttrMax then
          m.put i ((m.maps i).insert key value) (lit "attr set")
        else m.answer agentToolErrNoSpace (lit "too many attrs")
    | _, _, _ => m.answer agentToolErrBadParam (lit "bad params")
  | .get cwd params kalloc =>
    let params := safestrcpy params agentToolParamMax
    match paramText params (lit "path"), paramText params (lit "key") with
    | some path, some key =>
      if kalloc = false then m.answer agentToolErrNoSpace (lit "no memory")
      else
        match namei t cwd path with
        | none => m.answer agentToolErrBadParam (lit "file not found")
        | some i =>
          match (m.maps i).lookup key with
          | none => m.answer agentToolErrBadParam (lit "attr not found")
          | some value => m.answer agentToolOk (getText path key value)
    | _, _ => m.answer agentToolErrBadParam (lit "bad params")
  | .del cwd params =>
    let params := safestrcpy params agentToolParamMax
    match paramText params (lit "path"), paramText params (lit "key") with
    | some path, some key =>
      match namei t cwd path with
      | none => m.answer agentToolErrBadParam (lit "file not found")
      | some i =>
        if key ∈ m.maps i then m.put i ((m.maps i).erase key) (lit "attr deleted")
        else m.answer agentToolErrBadParam (lit "attr not found")
    | _, _ => m.answer agentToolErrBadParam (lit "bad params")

end AttrStore

/-! ### The array of an inode -/

/-- The map that an array of attributes stands for. -/
def attrMap (attrs : List InodeAttr) : AttrMap :=
  (attrs.map fun a => (⟨cstr a.key, cstr a.value⟩ : Sigma fun _ : List UInt8 => List UInt8)).toFinmap

section

variable {attrs attrs' : List InodeAttr} {a : InodeAttr} {key value : List UInt8}

theorem attrMap_cons (a : InodeAttr) (attrs : List InodeAttr) :
    attrMap (a :: attrs) = (attrMap attrs).insert (cstr a.key) (cstr a.value) :=
  Finmap.toFinmap_cons ..

theorem lookup_attrMap_cons : (attrMap (a :: attrs)).lookup key =
    if cstr a.key = key then some (cstr a.value) else (attrMap attrs).lookup key := by
  rw [attrMap_cons]
  split
  · rename_i hk
    rw [← hk, Finmap.lookup_insert]
  · rename_i hk
    exact Finmap.lookup_insert_of_ne _ (Ne.symm hk)

theorem mem_attrMap : key ∈ attrMap attrs ↔ ∃ a ∈ attrs, cstr a.key = key := by
  unfold attrMap
  rw [Finmap.mem_list_toFinmap]
  simp only [List.mem_map]
  constructor
  · rintro ⟨value, a, ha, he⟩
    exact ⟨a, ha, congrArg Sigma.fst he⟩
  · rintro ⟨a, ha, rfl⟩
    exact ⟨cstr a.value, a, ha, rfl⟩

/-- `get_file_attr` finds the value of the key. -/
theorem attrMap_find (hkey : cstr key = key) :
    ((attrs.find? fun a => streq a.key key).map fun a => cstr a.value) =
      (attrMap attrs).lookup key := by
  induction attrs with
  | nil => rfl
  | cons a attrs ih =>
    rw [List.find?_cons, lookup_attrMap_cons]
    by_cases hk : streq a.key key = true
    · rw [hk]
      have he := streq_iff.1 hk
      rw [hkey] at he
      rw [if_pos he]
      rfl
    · rw [Bool.not_eq_true] at hk
      rw [hk]
      have hne : cstr a.key ≠ key := by
        intro he
        rw [← Bool.not_eq_true, streq_iff, hkey] at hk
        exact hk he
      rw [if_neg hne]
      exact ih

/-- Distinct keys are counted once. -/
theorem attrMap_card (h : attrs.Pairwise fun a b => streq a.key b.key = false) :
    (attrMap attrs).keys.card = attrs.length := by
  induction attrs with
  | nil => rfl
  | cons a attrs ih =>
    obtain ⟨ha, hrest⟩ := List.pairwise_cons.1 h
    have hnew : cstr a.key ∉ attrMap attrs := by
      rw [mem_attrMap]
      rintro ⟨b, hb, he⟩
      have hne := ha b hb
      rw [← Bool.not_eq_true, streq_iff] at hne
      exact hne he.symm
    have hkeys : (attrMap (a :: attrs)).keys =
        insert (cstr a.key) (attrMap attrs).keys := by
      ext k
      rw [attrMap_cons, Finmap.mem_keys, Finmap.mem_insert, Finset.mem_insert, Finmap.mem_keys]
    rw [hkeys, Finset.card_insert_of_notMem (by rwa [Finmap.mem_keys]), ih hrest, List.length_cons]

theorem setAttrValue_map (hkey : cstr key = key) (hvalue : safestrcpy value inodeAttrValueMax = value)
    (h : setAttrValue key value attrs = some attrs') :
    key ∈ attrMap attrs ∧ attrMap attrs' = (attrMap attrs).insert key value := by
  have hcstr : cstr value = value := by
    rw [← hvalue]
    exact cstr_take value _
  induction attrs generalizing attrs' with
  | nil => cases h
  | cons a attrs ih =>
    unfold setAttrValue at h
    split at h
    · rename_i hk
      cases h
      have he := streq_iff.1 hk
      rw [hkey] at he
      refine ⟨mem_attrMap.2 ⟨a, List.mem_cons_self, he⟩, ?_⟩
      rw [attrMap_cons, attrMap_cons]
      dsimp only
      rw [he, hvalue, hcstr, Finmap.insert_insert]
    · rename_i hk
      obtain ⟨rest, hrest, rfl⟩ := Option.map_eq_some_iff.1 h
      obtain ⟨hmem, hmap⟩ := ih hrest
      rw [streq_iff, hkey] at hk
      refine ⟨?_, ?_⟩
      · rw [attrMap_cons, Finmap.mem_insert]
        exact Or.inr hmem
      · rw [attrMap_cons, attrMap_cons, hmap, Finmap.insert_insert_of_ne _ (Ne.symm hk)]

theorem attrMap_append (hkey : cstr key = key) (hshort : safestrcpy key inodeAttrKeyMax = key)
    (hvalue : safestrcpy value inodeAttrValueMax = value) (hnew : key ∉ attrMap attrs) :
    attrMap (attrs ++ [InodeAttr.mk' key value]) = (attrMap attrs).insert key value := by
  have hcstr : cstr value = value := by
    rw [← hvalue]
    exact cstr_take value _
  induction attrs with
  | nil =>
    rw [List.nil_append, attrMap_cons]
    unfold InodeAttr.mk'
    dsimp only
    rw [hshort, hvalue, hkey, hcstr]
  | cons a attrs ih =>
    rw [attrMap_cons, Finmap.mem_insert, not_or] at hnew
    rw [List.cons_append, attrMap_cons, ih hnew.2, attrMap_cons,
      Finmap.insert_insert_of_ne _ hnew.1]

theorem attrMap_eraseIdx {i : ℕ} (hkey : cstr key = key)
    (hpair : attrs.Pairwise fun a b => streq a.key b.key = false)
    (h : (attrs.findIdx? fun a => streq a.key key) = some i) :
    key ∈ attrMap attrs ∧ attrMap (attrs.eraseIdx i) = (attrMap attrs).erase key := by
  induction attrs generalizing i with
  | nil => cases h
  | cons a attrs ih =>
    obtain ⟨ha, hrest⟩ := List.pairwise_cons.1 hpair
    rw [List.findIdx?_cons] at h
    by_cases hk : streq a.key key = true
    · rw [if_pos hk] at h
      cases h
      have he := streq_iff.1 hk
      rw [hkey] at he
      -- no second attribute has this key
      have hnew : key ∉ attrMap attrs := by
        rw [mem_attrMap]
        rintro ⟨b, hb, hbk⟩
        have hne := ha b hb
        rw [← Bool.not_eq_true, streq_iff] at hne
        exact hne (he.trans hbk.symm)
      refine ⟨mem_attrMap.2 ⟨a, List.mem_cons_self, he⟩, Finmap.ext_lookup fun x => ?_⟩
      rw [List.eraseIdx_cons_zero]
      by_cases hx : x = key
      · rw [hx, Finmap.lookup_erase, Finmap.lookup_eq_none]
        exact hnew
      · rw [Finmap.lookup_erase_ne hx, lookup_attrMap_cons, if_neg fun hak => hx (hak.symm.trans he)]
    · rw [if_neg hk] at h
      obtain ⟨n, hn, rfl⟩ := Option.map_eq_some_iff.1 h
      obtain ⟨hmem, hmap⟩ := ih hrest hn
      rw [streq_iff, hkey] at hk
      refine ⟨?_, Finmap.ext_lookup fun x => ?_⟩
      · rw [attrMap_cons, Finmap.mem_insert]
        exact Or.inr hmem
      · rw [List.eraseIdx_cons_succ, lookup_attrMap_cons, hmap]
        by_cases hx : x = key
        · rw [hx, if_neg hk, Finmap.lookup_erase, Finmap.lookup_erase]
        · rw [Finmap.lookup_erase_ne hx, Finmap.lookup_erase_ne hx, lookup_attrMap_cons]

theorem findIdx_none (hkey : cstr key = key)
    (h : (attrs.findIdx? fun a => streq a.key key) = none) : key ∉ attrMap attrs := by
  rw [mem_attrMap]
  rintro ⟨a, ha, he⟩
  have hne := List.findIdx?_eq_none_iff.1 h a ha
  rw [← Bool.not_eq_true, streq_iff, hkey] at hne
  exact hne he

end

/-- A text that fits its buffer. -/
theorem safestrcpy_of_short {s : List UInt8} {n : ℕ} (hz : (0 : UInt8) ∉ s) (h : s.length < n) :
    safestrcpy s n = s := by
  rw [safestrcpy_of_notMem hz]
  exact List.take_of_length_le (by omega)

section

variable {ip ip' : FileInode} {key value : List UInt8}

/-- **`set_file_attr` on the inode**: an insertion, if the key is there or there is room. -/
theorem setAttr_map (hok : ip.AttrsOk) (hkz : (0 : UInt8) ∉ key) (hk : key.length < inodeAttrKeyMax)
    (hvz : (0 : UInt8) ∉ value) (hv : value.length < inodeAttrValueMax) :
    match (MetaChange.setAttr key value).apply ip with
    | some ip' => (key ∈ attrMap ip.attrs ∨ (attrMap ip.attrs).keys.card < inodeAttrMax) ∧
        attrMap ip'.attrs = (attrMap ip.attrs).insert key value
    | none => ¬ (key ∈ attrMap ip.attrs ∨ (attrMap ip.attrs).keys.card < inodeAttrMax) := by
  have hkey := cstr_of_notMem hkz
  have hshort := safestrcpy_of_short hkz hk
  have hvalue := safestrcpy_of_short hvz hv
  unfold MetaChange.apply
  dsimp only
  rw [hshort]
  cases hset : setAttrValue key value ip.attrs with
  | some attrs =>
    obtain ⟨hmem, hmap⟩ := setAttrValue_map hkey hvalue hset
    exact ⟨Or.inl hmem, hmap⟩
  | none =>
    have hnew : key ∉ attrMap ip.attrs := by
      rw [mem_attrMap]
      rintro ⟨a, ha, he⟩
      have hne := setAttrValue_none hset a ha
      rw [← Bool.not_eq_true, streq_iff, hkey] at hne
      exact hne he
    rw [attrMap_card hok.2]
    dsimp only
    by_cases hroom : inodeAttrMax ≤ ip.attrs.length
    · rw [if_pos hroom]
      rintro (h | h)
      · exact hnew h
      · omega
    · rw [if_neg hroom]
      exact ⟨Or.inr (by omega), attrMap_append hkey hshort hvalue hnew⟩

/-- **`del_file_attr` on the inode**: an erasure. -/
theorem delAttr_map (hok : ip.AttrsOk) (hkz : (0 : UInt8) ∉ key)
    (hk : key.length < inodeAttrKeyMax) :
    match (MetaChange.delAttr key).apply ip with
    | some ip' => key ∈ attrMap ip.attrs ∧ attrMap ip'.attrs = (attrMap ip.attrs).erase key
    | none => key ∉ attrMap ip.attrs := by
  have hkey := cstr_of_notMem hkz
  unfold MetaChange.apply
  dsimp only
  rw [safestrcpy_of_short hkz hk]
  cases hfind : ip.attrs.findIdx? fun a => streq a.key key with
  | some i => exact attrMap_eraseIdx hkey hok.2 hfind
  | none => exact findIdx_none hkey hfind

end

/-! ### The texts of a call -/

theorem paramValueLoop_mem {key : List UInt8} {n fuel : ℕ} {p text : List UInt8}
    (h : paramValueLoop key n fuel p = some text) : ∀ b ∈ text, b ∈ p ∧ b ≠ charSemicolon := by
  induction fuel generalizing p with
  | zero => cases h
  | succ fuel ih =>
    unfold paramValueLoop at h
    split at h
    · cases h
    split at h
    · obtain rfl := Option.some.inj h
      intro b hb
      have hwhile := List.mem_of_mem_take hb
      refine ⟨List.mem_of_mem_drop (List.takeWhile_subset _ hwhile), ?_⟩
      simpa using List.mem_takeWhile_imp hwhile
    · intro b hb
      obtain ⟨hmem, hne⟩ := ih h b hb
      refine ⟨?_, hne⟩
      have hdrop : b ∈ p.dropWhile (· != charSemicolon) := by
        split at hmem
        · exact List.mem_of_mem_tail hmem
        · exact hmem
      exact (List.dropWhile_suffix _).mem hdrop

/-- The text of a parameter has no NUL and no semicolon. -/
theorem paramText_mem {params key text : List UInt8} (h : paramText params key = some text) :
    (0 : UInt8) ∉ text ∧ charSemicolon ∉ text := by
  have hmem := paramValueLoop_mem h
  exact ⟨fun h0 => cstr_zero params (hmem 0 h0).1, fun hs => (hmem _ hs).2 rfl⟩

/-- The text of the parameter, if there is one, fits a buffer of `n` bytes. -/
def Within (params : List UInt8) (key : String) (n : ℕ) : Prop :=
  ∀ text, paramText (safestrcpy params agentToolParamMax) (lit key) = some text → text.length < n

instance (params : List UInt8) (key : String) (n : ℕ) : Decidable (Within params key n) :=
  decidable_of_iff (∀ text ∈ paramText (safestrcpy params agentToolParamMax) (lit key),
    text.length < n) Iff.rfl

/-- **The texts of a call fit the buffers** for the path, the key and the value. -/
def AttrCall.Short : AttrCall → Prop
  | .set _ params => Within params "path" agentFilePathMax ∧ Within params "key" inodeAttrKeyMax ∧
      Within params "value" inodeAttrValueMax
  | .get _ params _ | .del _ params =>
    Within params "path" agentFilePathMax ∧ Within params "key" inodeAttrKeyMax

instance : DecidablePred AttrCall.Short
  | .set _ _ => inferInstanceAs (Decidable (_ ∧ _ ∧ _))
  | .get _ _ _ => inferInstanceAs (Decidable (_ ∧ _))
  | .del _ _ => inferInstanceAs (Decidable (_ ∧ _))

/-- A text that fits is read as a whole. -/
theorem Within.paramValue {params : List UInt8} {key : String} {n : ℕ} (h : Within params key n) :
    paramValue (safestrcpy params agentToolParamMax) (lit key) n =
      paramText (safestrcpy params agentToolParamMax) (lit key) := by
  rw [paramValue_eq]
  cases htext : paramText (safestrcpy params agentToolParamMax) (lit key) with
  | none => rfl
  | some text =>
    have hlen := h text htext
    rw [Option.map_some, List.take_of_length_le (by omega)]

/-! ### One call -/

/-- The maps of the files, and the last answer. -/
def FileSystem.attrStore (s : FileSystem) : AttrStore :=
  ⟨fun i => attrMap (s.tree i).file.attrs, s.resp⟩

section

variable {s t : FileSystem} {a : AttrCall} {i : ℕ} {ip : FileInode} {result : List UInt8}

theorem respond_store (status : ℤ) (h : safestrcpy result agentToolResultMax = result) :
    (s.respond status result).attrStore = s.attrStore.answer status result := by
  unfold FileSystem.respond FileSystem.attrStore AttrStore.answer
  rw [h]

@[simp] theorem attrStore_maps (s : FileSystem) (i : ℕ) :
    s.attrStore.maps i = attrMap (s.tree i).file.attrs := rfl

theorem contentChanged_tree (s : FileSystem) (status : ℤ) (result : List UInt8) :
    (s.contentChanged.respond status result).tree = s.tree := by
  unfold FileSystem.respond FileSystem.contentChanged
  dsimp only
  exact build_tree s

/-- A change of metadata puts the new map. -/
theorem changed_store (h : safestrcpy result agentToolResultMax = result) :
    ({ s with tree := s.tree.setFile i ip }.contentChanged.respond agentToolOk result).attrStore =
      s.attrStore.put i (attrMap ip.attrs) result := by
  have htree : ({ s with tree := s.tree.setFile i ip }.contentChanged.respond agentToolOk
      result).tree = s.tree.setFile i ip := contentChanged_tree { s with tree := _ } _ _
  have hresp : ({ s with tree := s.tree.setFile i ip }.contentChanged.respond agentToolOk
      result).resp = (agentToolOk, result) := by
    change (agentToolOk, safestrcpy result agentToolResultMax) = _
    rw [h]
  unfold FileSystem.attrStore AttrStore.put
  rw [htree, hresp]
  congr 1
  funext j
  dsimp only
  unfold FileTree.setFile
  by_cases hj : j = i
  · subst hj
    rw [Function.update_self, Function.update_self]
  · rw [Function.update_of_ne hj, Function.update_of_ne hj]

/-- The answer of a lookup fits its buffer. -/
theorem getText_length {path key value : List UInt8} (hp : path.length < agentFilePathMax)
    (hk : key.length < inodeAttrKeyMax) (hv : value.length < inodeAttrValueMax) :
    (AttrStore.getText path key value).length < agentToolResultMax := by
  have h₁ : (lit "\x7bstatus=ok,path=").length = 16 := by decide
  have h₂ : (lit ",").length = 1 := by decide
  have h₃ : (lit "=").length = 1 := by decide
  have h₄ : (lit "\x7d").length = 1 := by decide
  unfold AttrStore.getText
  simp only [List.length_append, h₁, h₂, h₃, h₄]
  unfold agentFilePathMax at hp
  unfold inodeAttrKeyMax at hk
  unfold inodeAttrValueMax at hv
  unfold agentToolResultMax
  omega

theorem getText_put {path key value : List UInt8} (hp : path.length < agentFilePathMax)
    (hk : key.length < inodeAttrKeyMax) (hv : strlen value < inodeAttrValueMax)
    (hpz : (0 : UInt8) ∉ path) (hkz : (0 : UInt8) ∉ key) :
    resultPuts (resultPuts (resultPuts (resultPuts (resultPuts (resultPuts (resultPuts []
      (lit "\x7bstatus=ok,path=")) path) (lit ",")) key) (lit "=")) value) (lit "\x7d") =
      AttrStore.getText path key (cstr value) := by
  have hclip := clip_lit (clip_resultPuts (clip_lit (clip_resultPuts (clip_lit (clip_resultPuts
    (clip_lit Clip.nil "\x7bstatus=ok,path=" rfl) path) "," rfl) key) "=" rfl) value) "\x7d" rfl
  rw [cstr_of_notMem hpz, cstr_of_notMem hkz] at hclip
  exact (clip_room hclip).2 (getText_length hp hk hv)

theorem getText_notMem {path key value : List UInt8} (hpz : (0 : UInt8) ∉ path)
    (hkz : (0 : UInt8) ∉ key) (hvz : (0 : UInt8) ∉ value) :
    (0 : UInt8) ∉ AttrStore.getText path key value := by
  unfold AttrStore.getText
  simp only [List.mem_append, not_or]
  exact ⟨⟨⟨⟨⟨⟨by decide, hpz⟩, by decide⟩, hkz⟩, by decide⟩, hvz⟩, by decide⟩

/-- **`set_file_attr` inserts.** -/
theorem setFileAttr_store (hok : s.tree.AttrsOk) {cwd : ℕ} {params : List UInt8}
    (h : (AttrCall.set cwd params).Short) :
    (s.attrNext (.set cwd params)).attrStore = s.attrStore.next s.tree (.set cwd params) := by
  obtain ⟨hp, hk, hv⟩ := h
  unfold FileSystem.attrNext FileSystem.setFileAttr AttrStore.next
  dsimp only
  rw [hp.paramValue, hk.paramValue, hv.paramValue]
  unfold Within at hk hv
  generalize safestrcpy params agentToolParamMax = params at *
  cases hpath : paramText params (lit "path") with
  | none => exact respond_store _ rfl
  | some path =>
    cases hkey : paramText params (lit "key") with
    | none => exact respond_store _ rfl
    | some key =>
      cases hvalue : paramText params (lit "value") with
      | none => exact respond_store _ rfl
      | some value =>
        dsimp only
        cases namei s.tree cwd path with
        | none => exact respond_store _ rfl
        | some i =>
          dsimp only
          by_cases htype : (s.tree i).type ≠ .file
          · rw [if_pos htype, if_pos htype]
            exact respond_store _ rfl
          · rw [if_neg htype, if_neg htype, attrStore_maps]
            have hmap := setAttr_map (hok i) (paramText_mem hkey).1 (hk key hkey)
              (paramText_mem hvalue).1 (hv value hvalue)
            cases hset : (MetaChange.setAttr key value).apply (s.tree i).file with
            | none =>
              rw [hset] at hmap
              rw [if_neg hmap]
              exact respond_store _ rfl
            | some ip =>
              rw [hset] at hmap
              rw [if_pos hmap.1, ← hmap.2]
              exact changed_store rfl

/-- **`get_file_attr` looks up.** -/
theorem getFileAttr_store {cwd : ℕ} {params : List UInt8} {kalloc : Bool}
    (h : (AttrCall.get cwd params kalloc).Short) :
    (s.attrNext (.get cwd params kalloc)).attrStore =
      s.attrStore.next s.tree (.get cwd params kalloc) := by
  obtain ⟨hp, hk⟩ := h
  unfold FileSystem.attrNext FileSystem.getFileAttr AttrStore.next
  dsimp only
  rw [hp.paramValue, hk.paramValue]
  unfold Within at hp hk
  generalize safestrcpy params agentToolParamMax = params at *
  cases hpath : paramText params (lit "path") with
  | none => exact respond_store _ rfl
  | some path =>
    cases hkey : paramText params (lit "key") with
    | none => exact respond_store _ rfl
    | some key =>
      dsimp only
      cases kalloc with
      | false => exact respond_store _ rfl
      | true =>
        rw [if_neg (by decide), if_neg (by decide)]
        cases namei s.tree cwd path with
        | none => exact respond_store _ rfl
        | some i =>
          have hkz := (paramText_mem hkey).1
          have hpz := (paramText_mem hpath).1
          have hfind : (((s.tree i).file.attrs.find? fun a => streq a.key key).map
              fun a => cstr a.value) = (attrMap (s.tree i).file.attrs).lookup key :=
            attrMap_find (cstr_of_notMem hkz)
          dsimp only
          rw [attrStore_maps, ← hfind]
          cases (s.tree i).file.attrs.find? fun a => streq a.key key with
          | none => exact respond_store _ rfl
          | some a =>
            dsimp only
            rw [getText_put (hp path hpath) (hk key hkey) a.value_lt hpz hkz]
            exact respond_store _ (safestrcpy_of_short (getText_notMem hpz hkz (cstr_zero a.value))
              (getText_length (hp path hpath) (hk key hkey) a.value_lt))

/-- **`del_file_attr` erases.** -/
theorem delFileAttr_store (hok : s.tree.AttrsOk) {cwd : ℕ} {params : List UInt8}
    (h : (AttrCall.del cwd params).Short) :
    (s.attrNext (.del cwd params)).attrStore = s.attrStore.next s.tree (.del cwd params) := by
  obtain ⟨hp, hk⟩ := h
  unfold FileSystem.attrNext FileSystem.delFileAttr AttrStore.next
  dsimp only
  rw [hp.paramValue, hk.paramValue]
  unfold Within at hk
  generalize safestrcpy params agentToolParamMax = params at *
  cases hpath : paramText params (lit "path") with
  | none => exact respond_store _ rfl
  | some path =>
    cases hkey : paramText params (lit "key") with
    | none => exact respond_store _ rfl
    | some key =>
      dsimp only
      cases namei s.tree cwd path with
      | none => exact respond_store _ rfl
      | some i =>
        dsimp only
        rw [attrStore_maps]
        have hmap := delAttr_map (hok i) (paramText_mem hkey).1 (hk key hkey)
        cases hdel : (MetaChange.delAttr key).apply (s.tree i).file with
        | none =>
          rw [hdel] at hmap
          rw [if_neg hmap]
          exact respond_store _ rfl
        | some ip =>
          rw [hdel] at hmap
          rw [if_pos hmap.1, ← hmap.2]
          exact changed_store rfl

/-- **One call is the operation on the maps.** -/
theorem attrNext_store (hok : s.tree.AttrsOk) (h : a.Short) :
    (s.attrNext a).attrStore = s.attrStore.next s.tree a := by
  cases a with
  | set cwd params => exact setFileAttr_store hok h
  | get cwd params kalloc => exact getFileAttr_store h
  | del cwd params => exact delFileAttr_store hok h

theorem getFileAttr_meta (s : FileSystem) (cwd : ℕ) (params : List UInt8) (kalloc : Bool) :
    MetaStep s (s.getFileAttr cwd params kalloc) := by
  unfold FileSystem.getFileAttr
  split
  · split
    · exact .refused _ _
    · split
      · exact .refused _ _
      · split
        · exact .refused _ _
        · exact .refused _ _
  · exact .refused _ _

theorem attrNext_meta (s : FileSystem) (a : AttrCall) : MetaStep s (s.attrNext a) := by
  cases a with
  | set cwd params => exact setFileAttr_meta s cwd _
  | get cwd params kalloc => exact getFileAttr_meta s cwd _ kalloc
  | del cwd params => exact delFileAttr_meta s cwd _

end

/-! ### Runs -/

/-- Two trees with the same inodes and directories. -/
def SameShape (t t' : FileTree) : Prop :=
  ∀ j, (t j).type = (t' j).type ∧ (t j).entries = (t' j).entries

section

variable {s s₀ t : FileSystem} {x y : FileTree} {m : AttrStore} {a : AttrCall}
  {tr : List AttrCall} {i : ℕ} {key : List UInt8}

theorem MetaStep.shape (h : MetaStep s t) : SameShape t.tree s.tree := by
  cases h with
  | refused status result => exact fun j => ⟨rfl, rfl⟩
  | written inum data status result => exact setFile_shape s.tree inum _
  | changed c inum ip result _ =>
    rw [contentChanged_tree]
    exact setFile_shape s.tree inum ip

theorem MetaStep.attrsOk (h : MetaStep s t) (hok : s.tree.AttrsOk) : t.tree.AttrsOk := by
  cases h with
  | refused status result => exact hok
  | written inum data status result =>
    exact hok.update (d := { s.tree inum with
      file := { (s.tree inum).file with data := data } }) ((hok inum).of_attrs rfl) inum
  | changed c inum ip result hip =>
    rw [contentChanged_tree]
    exact hok.update (d := { s.tree inum with file := ip })
      (MetaChange.apply_attrsOk hip (hok inum)) inum

theorem namexLoop_congr (h : SameShape x y) (parent : Bool) (fuel ip : ℕ) (path : List UInt8) :
    namexLoop x parent fuel ip path = namexLoop y parent fuel ip path := by
  induction fuel generalizing ip path with
  | zero => rfl
  | succ fuel ih =>
    have hlookup : ∀ name, dirlookup (x ip) name = dirlookup (y ip) name := by
      intro name
      unfold dirlookup
      rw [(h ip).2]
    unfold namexLoop
    simp only [(h ip).1, hlookup, ih]

/-- Where a path leads is a matter of the shape. -/
theorem namei_congr (h : SameShape x y) (cwd : ℕ) (path : List UInt8) :
    namei x cwd path = namei y cwd path := by
  unfold namei namex
  simp only [namexLoop_congr h]

theorem AttrStore.next_congr (h : SameShape x y) (m : AttrStore) (a : AttrCall) :
    m.next x a = m.next y a := by
  have htype : ∀ i, (x i).type = (y i).type := fun i => (h i).1
  cases a <;> simp only [AttrStore.next, namei_congr h, htype]

/-- The call sets or deletes this key of file `i`. -/
def AttrCall.Changes (t : FileTree) (i : ℕ) (key : List UInt8) : AttrCall → Prop
  | .set cwd params | .del cwd params =>
    ∃ path, paramText (safestrcpy params agentToolParamMax) (lit "path") = some path ∧
      namei t cwd path = some i ∧
      paramText (safestrcpy params agentToolParamMax) (lit "key") = some key
  | .get _ _ _ => False

/-- A change of another key, or of another file. -/
theorem AttrStore.lookup_put {j : ℕ} {z : AttrMap} {result : List UInt8}
    (h : j = i → z.lookup key = (m.maps j).lookup key) :
    ((m.put j z result).maps i).lookup key = (m.maps i).lookup key := by
  unfold AttrStore.put
  dsimp only
  by_cases hj : i = j
  · subst hj
    rw [Function.update_self]
    exact h rfl
  · rw [Function.update_of_ne hj]

/-- **A call leaves the keys alone that it does not set or delete.** -/
theorem AttrStore.next_lookup (h : ¬ a.Changes x i key) :
    ((m.next x a).maps i).lookup key = (m.maps i).lookup key := by
  cases a with
  | get cwd params kalloc =>
    unfold AttrStore.next
    dsimp only
    repeat' split
    all_goals rfl
  | set cwd params =>
    unfold AttrStore.next
    dsimp only
    split
    · rename_i path key' value hpath hkey _
      split
      · rfl
      · rename_i j hj
        split
        · rfl
        · split
          · refine AttrStore.lookup_put fun hji => Finmap.lookup_insert_of_ne _ ?_
            rintro rfl
            exact h ⟨path, hpath, hji ▸ hj, hkey⟩
          · rfl
    · rfl
  | del cwd params =>
    unfold AttrStore.next
    dsimp only
    split
    · rename_i path key' hpath hkey
      split
      · rfl
      · rename_i j hj
        split
        · refine AttrStore.lookup_put fun hji => Finmap.lookup_erase_ne ?_
          rintro rfl
          exact h ⟨path, hpath, hji ▸ hj, hkey⟩
        · rfl
    · rfl

theorem AttrStore.run_lookup (h : ∀ a ∈ tr, ¬ a.Changes x i key) :
    ((tr.foldl (AttrStore.next x) m).maps i).lookup key = (m.maps i).lookup key := by
  induction tr generalizing m with
  | nil => rfl
  | cons a tr ih =>
    rw [List.foldl_cons, ih fun b hb => h b (List.mem_cons_of_mem a hb),
      AttrStore.next_lookup (h a List.mem_cons_self)]

/-- **File attributes form a finite map.** In every run of calls whose texts fit the buffers, the
attributes and the answers are those of the maps with the complete keys and values, so a key keeps
its value until a call sets or deletes it. -/
theorem attrs_follow_maps (h₀ : attrMachine.init s₀)
    (h : attrMachine.Path (fun _ a => a.Short) s₀ tr s) :
    s.attrStore = tr.foldl (AttrStore.next s₀.tree) s₀.attrStore ∧
      ∀ i key, (∀ a ∈ tr, ¬ a.Changes s₀.tree i key) →
        (s.attrStore.maps i).lookup key = (s₀.attrStore.maps i).lookup key := by
  have hrun : s.attrStore = tr.foldl (AttrStore.next s₀.tree) s₀.attrStore ∧ s.tree.AttrsOk ∧
      SameShape s.tree s₀.tree := by
    refine h.inv_tr (P := fun tr s => s.attrStore = tr.foldl (AttrStore.next s₀.tree) s₀.attrStore ∧
      s.tree.AttrsOk ∧ SameShape s.tree s₀.tree) ?_ ⟨rfl, h₀, fun j => ⟨rfl, rfl⟩⟩
    rintro tr s a t ⟨hstore, hok, hshape⟩ hshort hnext
    obtain rfl := Option.some.inj hnext
    have hmeta := attrNext_meta s a
    refine ⟨?_, hmeta.attrsOk hok, fun j => ?_⟩
    · rw [attrNext_store hok hshort, List.foldl_append, ← hstore, AttrStore.next_congr hshape]
      rfl
    · exact ⟨(hmeta.shape j).1.trans (hshape j).1, (hmeta.shape j).2.trans (hshape j).2⟩
  refine ⟨hrun.1, fun i key hno => ?_⟩
  rw [hrun.1]
  exact AttrStore.run_lookup hno

end

/-- The file system with the file `/a`. -/
def fsA : FileSystem := fsNext fsStart createA

theorem fsA_reach : fsMachine.Reach always [createA] fsA := by
  have hnext : fsMachine.next fsStart createA = some (fsNext fsStart createA) :=
    next_getD (by decide)
  exact ⟨fsStart, fsStart_init, .single trivial hnext⟩

/-- One file `/a`. -/
def attrStart : FileSystem := { fsStart with tree := treeA }

theorem attrStart_init : attrMachine.init attrStart := by
  have htree : attrStart.tree = fsA.tree := by
    unfold attrStart treeA fsA
    dsimp only
  change attrStart.tree.AttrsOk
  rw [htree]
  exact (reach_answersHeld fsA_reach).attrs

/-- Set a key, and get it. -/
def shortCalls : List AttrCall :=
  [.set rootino (lit "path=/a;key=owner;value=alice"), .get rootino (lit "path=/a;key=owner") true]

theorem attrs_follow_maps_owner : ∃ s, attrMachine.Path (fun _ a => a.Short) attrStart shortCalls s ∧
    s.attrStore = shortCalls.foldl (AttrStore.next attrStart.tree) attrStart.attrStore ∧
    ∀ i key, (∀ a ∈ shortCalls, ¬ a.Changes attrStart.tree i key) →
      (s.attrStore.maps i).lookup key = (attrStart.attrStore.maps i).lookup key := by
  have hpath : attrMachine.Path (fun _ a => a.Short) attrStart shortCalls
      ((attrMachine.runOk (fun _ a => a.Short) attrStart shortCalls).getD attrStart) :=
    pathOk_getD (by decide +kernel)
  exact ⟨_, hpath, attrs_follow_maps attrStart_init hpath⟩

/-- Set two keys that begin with the same seven bytes, and get the first. -/
def collision : List AttrCall :=
  [.set rootino (lit "path=/a;key=department1;value=alice"),
    .set rootino (lit "path=/a;key=department2;value=bob"),
    .get rootino (lit "path=/a;key=department1") true]

/-- **The second call overwrites the first.** -/
theorem attrs_collide : ∃ s, attrMachine.init attrStart ∧
    attrMachine.Path always attrStart collision s ∧
    s.resp = (agentToolOk, lit "\x7bstatus=ok,path=/a,departm=bob\x7d") ∧
    (collision.foldl (AttrStore.next attrStart.tree) attrStart.attrStore).resp =
      (agentToolOk, lit "\x7bstatus=ok,path=/a,department1=alice\x7d") := by
  have hpath : attrMachine.Path always attrStart collision
      ((attrMachine.run attrStart collision).getD attrStart) := path_getD (by decide +kernel)
  exact ⟨_, attrStart_init, hpath, by decide +kernel⟩

end AgentOS
