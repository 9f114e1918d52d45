import AgentOS.Lib.Fields
import AgentOS.Model.ParamScan

/-!
# `param_value` reads the grammar `key=value;key=value`

A string of parameters is a list of segments between semicolons. `param_value` finds the first segment
that begins with the key and an equals sign, and takes what is left of it.

* `strncmp_eq_zero`, `copyValue_eq`, `skipSegment_eq`: what the inner parts compute.
* `from_end`, `from_binds`, `from_skip`: the outer loop at one segment.
* `scan_segments`: the outer loop over all of them.
* `paramValueRun_eq`: it ends, and computes `paramValue`.
* **`paramValue_grammar`**: the grammar.
-/

namespace AgentOS

open Slice Fields

/-- The segment gives the key a value. -/
def Binds (key seg : List UInt8) : Prop := key ++ [charEquals] <+: seg

instance (key seg : List UInt8) : Decidable (Binds key seg) :=
  inferInstanceAs (Decidable (_ <+: _))

/-- The name of a segment, up to its first equals sign. -/
def segName (seg : List UInt8) : List UInt8 := seg.takeWhile (· != charEquals)

/-- The string with these segments. -/
def joinSegs (segs : List (List UInt8)) : List UInt8 := [charSemicolon].intercalate segs

/-- What `param_value` returns and leaves in `out`: the value of the first segment that binds the
key, cut to the buffer. -/
def boundValue (segs : List (List UInt8)) (key : List UInt8) (out : ℕ → UInt8) (outsz : ℕ) :
    ℤ × (ℕ → UInt8) :=
  match segs.find? fun seg => Binds key seg with
  | some seg => (0, putString out ((seg.drop (key.length + 1)).take (outsz - 1)))
  | none => (-1, putString out [])

section

variable {p q s t key : List UInt8} {out : ℕ → UInt8} {n outsz fuel : ℕ}

/-- A key is bound by the segments with this name and an equals sign, and by no others. -/
theorem binds_iff (hkey : charEquals ∉ key) : Binds key s ↔ segName s = key ∧ charEquals ∈ s := by
  unfold Binds segName
  constructor
  · rintro ⟨t, rfl⟩
    rw [List.append_assoc]
    exact ⟨takeWhile_field hkey, by simp⟩
  · rintro ⟨hname, hmem⟩
    have hsplit := List.takeWhile_append_dropWhile (p := (· != charEquals)) (l := s)
    cases hrest : s.dropWhile (· != charEquals) with
    | nil =>
      have hne := List.dropWhile_eq_nil_iff.1 hrest _ hmem
      simp at hne
    | cons c t =>
      have hne : s.dropWhile (· != charEquals) ≠ [] := by simp [hrest]
      have hc := List.head_dropWhile_not (· != charEquals) hne
      simp only [hrest, List.head_cons, bne_eq_false_iff_eq] at hc
      rw [hrest, hname, hc] at hsplit
      exact ⟨t, by rw [← hsplit]; simp⟩

/-! ### The inner parts -/

theorem deref_ne_zero (hp : (0 : UInt8) ∉ p) : deref p ≠ 0 ↔ p ≠ [] := by
  cases p with
  | nil => simp [deref]
  | cons c p =>
    have hc : c ≠ 0 := by
      rintro rfl
      simp at hp
    simp [deref, hc]

/-- **`strncmp`** over the whole of the second string. -/
theorem strncmp_eq_zero (hq : (0 : UInt8) ∉ q) : strncmp p q q.length = 0 ↔ q <+: p := by
  induction q generalizing p with
  | nil => simp [strncmp]
  | cons d q ih =>
    rw [List.mem_cons, not_or] at hq
    have hd : deref (d :: q) = d := rfl
    rw [List.length_cons]
    unfold strncmp
    rw [hd]
    cases p with
    | nil =>
      have hpos : 0 < d.toNat := by
        rw [Nat.pos_iff_ne_zero, ne_eq, ← UInt8.toNat_zero, UInt8.toNat_inj]
        exact Ne.symm hq.1
      rw [if_neg (by simp [deref])]
      refine iff_of_false ?_ (by simp)
      simp only [deref, List.headD_nil, UInt8.toNat_zero]
      omega
    | cons c p =>
      have hc : deref (c :: p) = c := rfl
      rw [hc, List.cons_prefix_cons]
      by_cases he : c = d
      · subst he
        rw [if_pos ⟨Ne.symm hq.1, rfl⟩]
        simpa using ih hq.2
      · rw [if_neg (by simp [he])]
        refine iff_of_false (fun hz => he ?_) (by simp [Ne.symm he])
        rw [← UInt8.toNat_inj]
        omega

/-- The test of the outer loop. -/
theorem test_iff (hkey : (0 : UInt8) ∉ key) :
    strncmp p key key.length = 0 ∧ deref (p.drop key.length) = charEquals ↔ Binds key p := by
  rw [strncmp_eq_zero hkey]
  unfold Binds
  constructor
  · rintro ⟨⟨t, rfl⟩, hc⟩
    rw [List.drop_left] at hc
    cases t with
    | nil => cases hc
    | cons c t =>
      obtain rfl : c = charEquals := hc
      exact ⟨t, by simp⟩
  · rintro ⟨t, rfl⟩
    rw [List.append_assoc]
    refine ⟨List.prefix_append _ _, ?_⟩
    rw [List.drop_left]
    rfl

theorem skipSegment_eq (p : List UInt8) : skipSegment p = p.dropWhile (· != charSemicolon) := by
  induction p with
  | nil => rfl
  | cons c p ih =>
    unfold skipSegment
    by_cases hc : c = charSemicolon
    · rw [if_neg (by simp [hc]), List.dropWhile_cons_of_neg (by simp [hc])]
    · rw [if_pos hc, List.dropWhile_cons_of_pos (by simp [hc]), ih]

theorem write_singleton (f : ℕ → UInt8) (n : ℕ) (c : UInt8) :
    write f n [c] = Function.update f n c := by
  funext b
  by_cases hb : b = n
  · subst hb
    rw [Function.update_self]
    exact write_inside (n := 0) (by simp)
  · rw [Function.update_of_ne hb, write_outside]
    simp only [List.length_singleton]
    omega

/-- The copy stores the value as far as there is room. -/
theorem copyValue_eq (outsz : ℕ) (out : ℕ → UInt8) (n : ℕ) (p : List UInt8) :
    copyValue outsz out n p =
      (n + ((p.takeWhile (· != charSemicolon)).take (outsz - 1 - n)).length,
        write out n ((p.takeWhile (· != charSemicolon)).take (outsz - 1 - n))) := by
  induction p generalizing out n with
  | nil => simp [copyValue]
  | cons c p ih =>
    unfold copyValue
    by_cases hc : c = charSemicolon
    · rw [if_neg (by simp [hc]), List.takeWhile_cons_of_neg (by simp [hc])]
      simp
    · rw [List.takeWhile_cons_of_pos (by simp [hc])]
      by_cases hn : n < outsz - 1
      -- one byte is stored, and the rest of the room is for the rest of the value
      · obtain ⟨m, hm⟩ : ∃ m, outsz - 1 - n = m + 1 := ⟨outsz - 1 - n - 1, by omega⟩
        have hm' : outsz - 1 - (n + 1) = m := by omega
        rw [if_pos ⟨hc, hn⟩, ih, hm, hm', List.take_succ_cons, ← write_singleton]
        have happend : write (write out n [c]) (n + 1) ((p.takeWhile (· != charSemicolon)).take m) =
            write out n (c :: (p.takeWhile (· != charSemicolon)).take m) := write_append
        rw [happend, List.length_cons]
        congr 1
        omega
      · have hz : outsz - 1 - n = 0 := by omega
        rw [if_neg (by simp [hn]), hz]
        simp

/-! ### The outer loop -/

/-- The value goes up to the next semicolon, as far as there is room. -/
theorem from_binds (hkey : (0 : UInt8) ∉ key) (hp : deref p ≠ 0) (h : Binds key p) :
    paramValueFrom key outsz out (fuel + 1) p =
      some (0, putString out
        (((p.drop (key.length + 1)).takeWhile (· != charSemicolon)).take (outsz - 1))) := by
  unfold paramValueFrom
  rw [if_pos hp, if_pos ((test_iff hkey).2 h), copyValue_eq]
  dsimp only
  rw [Nat.sub_zero, ← write_singleton, write_append]
  rfl

/-- Where the loop goes on. -/
def nextSegment (p : List UInt8) : List UInt8 :=
  if deref (skipSegment p) = charSemicolon then (skipSegment p).tail else skipSegment p

theorem from_skip (hkey : (0 : UInt8) ∉ key) (hp : deref p ≠ 0) (h : ¬ Binds key p) :
    paramValueFrom key outsz out (fuel + 1) p =
      paramValueFrom key outsz out fuel (nextSegment p) := by
  conv_lhs => unfold paramValueFrom
  rw [if_pos hp, if_neg fun ht => h ((test_iff hkey).1 ht)]
  rfl

theorem from_end (hout : 1 ≤ outsz) :
    paramValueFrom key outsz out (fuel + 1) [] = some (-1, putString out []) := by
  unfold paramValueFrom
  rw [if_neg (by simp [deref]), if_pos (by omega), ← write_singleton]
  rfl

theorem nextSegment_eq (hs : charSemicolon ∉ s) :
    nextSegment s = [] ∧ nextSegment (s ++ charSemicolon :: t) = t := by
  unfold nextSegment
  rw [skipSegment_eq, skipSegment_eq, dropWhile_last hs, dropWhile_field hs]
  exact ⟨if_neg (by decide), if_pos rfl⟩

theorem nextSegment_lt (hp : p ≠ []) : (nextSegment p).length < p.length := by
  unfold nextSegment
  rw [skipSegment_eq]
  have hle := (List.dropWhile_suffix (l := p) (· != charSemicolon)).length_le
  have hpos := List.length_pos_of_ne_nil hp
  by_cases hrest : p.dropWhile (· != charSemicolon) = []
  · rw [hrest, if_neg (by decide)]
    exact hpos
  · have hhead := List.head_dropWhile_not (· != charSemicolon) hrest
    obtain ⟨c, t, hct⟩ := List.exists_cons_of_ne_nil hrest
    simp only [hct, List.head_cons, bne_eq_false_iff_eq] at hhead
    rw [hct, List.length_cons] at hle
    have hderef : deref (c :: t) = charSemicolon := hhead
    rw [hct, if_pos hderef, List.tail_cons]
    omega

/-- **The loop ends**, and finds what `paramValueLoop` finds. -/
theorem paramValueFrom_eq (hkey : (0 : UInt8) ∉ key) (hout : 1 ≤ outsz) (hp : (0 : UInt8) ∉ p)
    (hf : p.length < fuel) : paramValueFrom key outsz out fuel p =
      some (match paramValueLoop key outsz fuel p with
        | some text => (0, putString out text)
        | none => (-1, putString out [])) := by
  induction fuel generalizing p with
  | zero => omega
  | succ fuel ih =>
    unfold paramValueLoop
    by_cases hnil : p = []
    · subst hnil
      rw [from_end hout, if_pos rfl]
    · rw [if_neg hnil]
      by_cases hb : Binds key p
      · rw [from_binds hkey ((deref_ne_zero hp).2 hnil) hb,
          if_pos (List.isPrefixOf_iff_prefix.2 hb)]
      · rw [from_skip hkey ((deref_ne_zero hp).2 hnil) hb,
          if_neg fun hpre => hb (List.isPrefixOf_iff_prefix.1 hpre)]
        have hnext : nextSegment p =
            if (p.dropWhile (· != charSemicolon)).head? = some charSemicolon then
              (p.dropWhile (· != charSemicolon)).tail
            else p.dropWhile (· != charSemicolon) := by
          unfold nextSegment
          rw [skipSegment_eq]
          cases p.dropWhile (· != charSemicolon) with
          | nil => rfl
          | cons c t => simp [deref]
        -- the next segment is shorter, so the fuel is enough for it
        have hlt := nextSegment_lt hnil
        have hmem : (0 : UInt8) ∉ nextSegment p := by
          intro hz
          unfold nextSegment at hz
          rw [skipSegment_eq] at hz
          have hsub := (List.dropWhile_suffix (l := p) (· != charSemicolon)).subset
          split at hz
          · exact hp (hsub (List.mem_of_mem_tail hz))
          · exact hp (hsub hz)
        dsimp only
        rw [← hnext]
        exact ih hmem (by omega)

/-- **`param_value` computes `paramValue`**. -/
theorem paramValueRun_eq (params key : List UInt8) (out : ℕ → UInt8) (hout : 1 ≤ outsz) :
    paramValueRun ((cstr params).length + 1) params key out outsz =
      some (match paramValue params (cstr key) outsz with
        | some text => (0, putString out text)
        | none => (-1, putString out [])) :=
  paramValueFrom_eq (cstr_zero key) hout (cstr_zero params) (Nat.lt_succ_self _)

/-! ### The segments -/

theorem joinSegs_cons (seg : List UInt8) (segs : List (List UInt8)) :
    (segs = [] ∧ joinSegs (seg :: segs) = seg) ∨
      (segs ≠ [] ∧ joinSegs (seg :: segs) = seg ++ charSemicolon :: joinSegs segs) := by
  unfold joinSegs
  cases segs with
  | nil => exact Or.inl ⟨rfl, List.intercalate_singleton⟩
  | cons next segs =>
    refine Or.inr ⟨List.cons_ne_nil _ _, ?_⟩
    rw [List.intercalate_cons_cons, List.append_assoc, List.singleton_append]

/-- A binding does not reach across a semicolon. -/
theorem binds_field (hkey : charSemicolon ∉ key) :
    Binds key (s ++ charSemicolon :: t) ↔ Binds key s := by
  refine prefix_field_iff ?_
  rw [List.mem_append, not_or, List.mem_singleton]
  exact ⟨hkey, by decide⟩

theorem joinSegs_eq_nil {segs : List (List UInt8)} (h : joinSegs (s :: segs) = []) :
    s = [] ∧ segs = [] := by
  rcases joinSegs_cons s segs with ⟨hsegs, he⟩ | ⟨-, he⟩
  · exact ⟨he ▸ h, hsegs⟩
  · rw [he] at h
    simp at h

theorem binds_joinSegs (hkey : charSemicolon ∉ key) (segs : List (List UInt8)) :
    Binds key (joinSegs (s :: segs)) ↔ Binds key s := by
  rcases joinSegs_cons s segs with ⟨-, he⟩ | ⟨-, he⟩
  · rw [he]
  · rw [he, binds_field hkey]

theorem nextSegment_joinSegs (hs : charSemicolon ∉ s) (segs : List (List UInt8)) :
    nextSegment (joinSegs (s :: segs)) = joinSegs segs := by
  rcases joinSegs_cons s segs with ⟨rfl, he⟩ | ⟨-, he⟩
  · rw [he, (nextSegment_eq (t := []) hs).1]
    rfl
  · rw [he, (nextSegment_eq hs).2]

/-- The value of the first segment goes up to its end. -/
theorem value_joinSegs (hs : charSemicolon ∉ s) (hb : Binds key s) (segs : List (List UInt8)) :
    ((joinSegs (s :: segs)).drop (key.length + 1)).takeWhile (· != charSemicolon) =
      s.drop (key.length + 1) := by
  have hle := hb.length_le
  rw [List.length_append, List.length_singleton] at hle
  have hdrop : charSemicolon ∉ s.drop (key.length + 1) :=
    fun hmem => hs (List.mem_of_mem_drop hmem)
  rcases joinSegs_cons s segs with ⟨-, he⟩ | ⟨-, he⟩
  · rw [he, takeWhile_last hdrop]
  · rw [he, List.drop_append_of_le_length hle, takeWhile_field hdrop]

theorem boundValue_binds (hb : Binds key s) (segs : List (List UInt8)) :
    boundValue (s :: segs) key out outsz =
      (0, putString out ((s.drop (key.length + 1)).take (outsz - 1))) := by
  unfold boundValue
  rw [List.find?_cons_of_pos (by simpa using hb)]

theorem boundValue_skip (hb : ¬ Binds key s) (segs : List (List UInt8)) :
    boundValue (s :: segs) key out outsz = boundValue segs key out outsz := by
  unfold boundValue
  rw [List.find?_cons_of_neg (by simpa using hb)]

theorem joinSegs_zero {segs : List (List UInt8)} (h : ∀ s ∈ segs, (0 : UInt8) ∉ s) :
    (0 : UInt8) ∉ joinSegs segs := by
  induction segs with
  | nil => exact List.not_mem_nil
  | cons s segs ih =>
    have hs := h s List.mem_cons_self
    have htail := ih fun s hs => h s (List.mem_cons_of_mem _ hs)
    rcases joinSegs_cons s segs with ⟨-, he⟩ | ⟨-, he⟩
    · rwa [he]
    · rw [he, List.mem_append, List.mem_cons, not_or, not_or]
      exact ⟨hs, by decide, htail⟩

/-- **The outer loop over the segments.** -/
theorem scan_segments {segs : List (List UInt8)}
    (hsegs : ∀ s ∈ segs, charSemicolon ∉ s ∧ (0 : UInt8) ∉ s)
    (hkey : charSemicolon ∉ key ∧ (0 : UInt8) ∉ key) (hout : 1 ≤ outsz)
    (hf : (joinSegs segs).length < fuel) :
    paramValueFrom key outsz out fuel (joinSegs segs) = some (boundValue segs key out outsz) := by
  induction segs generalizing fuel with
  | nil =>
    obtain ⟨m, rfl⟩ : ∃ m, fuel = m + 1 := ⟨fuel - 1, by omega⟩
    exact from_end hout
  | cons s segs ih =>
    obtain ⟨m, rfl⟩ : ∃ m, fuel = m + 1 := ⟨fuel - 1, by omega⟩
    obtain ⟨hs, hz⟩ := hsegs s List.mem_cons_self
    have hsegs' : ∀ s ∈ segs, charSemicolon ∉ s ∧ (0 : UInt8) ∉ s :=
      fun s hs => hsegs s (List.mem_cons_of_mem _ hs)
    have hzero := joinSegs_zero fun s hs => (hsegs s hs).2
    by_cases hnil : joinSegs (s :: segs) = []
    · -- the empty string is one empty segment
      obtain ⟨rfl, rfl⟩ := joinSegs_eq_nil hnil
      rw [hnil, from_end hout, boundValue_skip (by simp [Binds])]
      rfl
    · have hderef := (deref_ne_zero hzero).2 hnil
      have hlt := nextSegment_lt hnil
      rw [nextSegment_joinSegs hs] at hlt
      by_cases hb : Binds key s
      · rw [from_binds hkey.2 hderef ((binds_joinSegs hkey.1 segs).2 hb), value_joinSegs hs hb,
          boundValue_binds hb]
      · rw [from_skip hkey.2 hderef fun h => hb ((binds_joinSegs hkey.1 segs).1 h),
          nextSegment_joinSegs hs, boundValue_skip hb]
        exact ih hsegs' (by omega)

end

/-- **The grammar of `param_value`.** -/
theorem paramValue_grammar (segs : List (List UInt8)) (key : List UInt8) (out : ℕ → UInt8)
    (outsz fuel : ℕ) (hsegs : ∀ s ∈ segs, charSemicolon ∉ s ∧ (0 : UInt8) ∉ s)
    (hkey : charSemicolon ∉ key ∧ charEquals ∉ key ∧ (0 : UInt8) ∉ key) (hout : 1 ≤ outsz)
    (hf : (joinSegs segs).length < fuel) :
    paramValueRun fuel (joinSegs segs) key out outsz = some (boundValue segs key out outsz) ∧
      (∀ s, Binds key s ↔ segName s = key ∧ charEquals ∈ s) ∧
      ∀ params : List UInt8, (cstr params).length < fuel →
        (paramValueRun fuel params key out outsz).isSome = true := by
  refine ⟨?_, fun s => binds_iff hkey.2.1, fun params hparams => ?_⟩
  · unfold paramValueRun
    rw [cstr_of_notMem hkey.2.2, cstr_of_notMem (joinSegs_zero fun s hs => (hsegs s hs).2)]
    exact scan_segments hsegs ⟨hkey.1, hkey.2.2⟩ hout hf
  · unfold paramValueRun
    rw [paramValueFrom_eq (cstr_zero key) hout (cstr_zero params) hparams]
    rfl

/-- Other names before the key, an empty segment, and a value that is cut. -/
def keySegs : List (List UInt8) := [lit "keys=1", lit "monkey=2", [], lit "key=alice", lit "key"]

theorem paramValue_grammar_key :
    paramValueRun 64 (joinSegs keySegs) (lit "key") (fun _ => 7) 4 =
      some (0, putString (fun _ => 7) (lit "ali")) :=
  (paramValue_grammar keySegs (lit "key") (fun _ => 7) 4 64 (by decide) (by decide) (by decide)
    (by decide)).1

end AgentOS
