import AgentOS.Model.Tool
import AgentOS.Proof.Digest

/-!
# A changed digest

* `mix_left_inj`, `mix_right_inj`: one round of the hash is injective in the hash and in the word,
  since its multiplier has an inverse modulo 2^64.
* `rehash_put_ne`: a digest with one field changed does not have the hash it holds.
* `verify_hashes`: verification looks at each retained digest.
* `digest_tamper`: where verification succeeds, it fails once one field of one retained digest is
  another value.
-/

namespace AgentOS

open AgentOS.Ring

/-- A field of a digest, with a value to store in it. -/
inductive DigestField
  | sequence (v : UInt64)
  | requestId (v : UInt64)
  | requestHash (v : UInt64)
  | resultHash (v : UInt64)
  | previousHash (v : UInt64)
  | currentHash (v : UInt64)
  | status (v : ℤ)

namespace DigestField

/-- The digest with the value stored. -/
def put (d : AgentContextDigest) : DigestField → AgentContextDigest
  | .sequence v => { d with sequence := v }
  | .requestId v => { d with requestId := v }
  | .requestHash v => { d with requestHash := v }
  | .resultHash v => { d with resultHash := v }
  | .previousHash v => { d with previousHash := v }
  | .currentHash v => { d with currentHash := v }
  | .status v => { d with status := v }

/-- A status is an `int`. -/
def Fits : DigestField → Prop
  | .status v => IsInt v
  | _ => True

end DigestField

/-- The slot of the oldest digest, before it is taken modulo the size of the ring. -/
def oldest (c : ContextState) : ℕ :=
  if c.contextDigestHead < c.contextDigestCount then
    c.contextDigestHead + agentContextDigestMax - c.contextDigestCount
  else c.contextDigestHead - c.contextDigestCount

/-- The slot of the `i`-th retained digest, counted from the oldest. -/
def digestSlot (c : ContextState) (i : ℕ) : Fin agentContextDigestMax :=
  Fin.ofNat agentContextDigestMax (oldest c + i)

/-- The ring with a field of the `i`-th retained digest changed. -/
def tamper (c : ContextState) (i : ℕ) (f : DigestField) : ContextState :=
  { c with
    contextDigests := Function.update c.contextDigests (digestSlot c i)
      (f.put (c.contextDigests (digestSlot c i))) }

/-! ### The hash -/

section

variable {h h' w w' : UInt64}

/-- The multiplier has an inverse modulo 2^64. -/
theorem prime_inverse : (1099511628211 : UInt64) * 14886173955864302971 = 1 := rfl

theorem mul_prime_inj (he : h * 1099511628211 = h' * 1099511628211) : h = h' := by
  have hmul : h * 1099511628211 * 14886173955864302971 =
      h' * 1099511628211 * 14886173955864302971 := by rw [he]
  rwa [UInt64.mul_assoc, UInt64.mul_assoc, prime_inverse, UInt64.mul_one, UInt64.mul_one] at hmul

theorem mix_left_inj : ContextState.mix h w = ContextState.mix h' w ↔ h = h' := by
  refine ⟨fun he => ?_, fun he => by rw [he]⟩
  have hxor := mul_prime_inj he
  rwa [UInt64.xor_left_inj] at hxor

theorem mix_right_inj : ContextState.mix h w = ContextState.mix h w' ↔ w = w' := by
  refine ⟨fun he => ?_, fun he => by rw [he]⟩
  have hxor := mul_prime_inj he
  rwa [UInt64.xor_right_inj] at hxor

end

/-- `(uint64)(uint32)status` tells two statuses apart. -/
theorem status_inj {a b : ℤ} (ha : IsInt a) (hb : IsInt b)
    (he : UInt64.ofNat (a % 2 ^ 32).toNat = UInt64.ofNat (b % 2 ^ 32).toNat) : a = b := by
  obtain ⟨ha0, ha1⟩ := ha
  obtain ⟨hb0, hb1⟩ := hb
  have hna : (a % 2 ^ 32).toNat < 2 ^ 32 := by omega
  have hnb : (b % 2 ^ 32).toNat < 2 ^ 32 := by omega
  have hval : (a % 2 ^ 32).toNat = (b % 2 ^ 32).toNat := by
    have hnat := congrArg UInt64.toNat he
    simp only [UInt64.toNat_ofNat'] at hnat
    omega
  omega

/-- **A digest with one field changed** does not have the hash it holds. -/
theorem rehash_put_ne {d : AgentContextDigest} {f : DigestField} (hd : d.rehash = d.currentHash)
    (hs : IsInt d.status) (hf : f.Fits) (hne : f.put d ≠ d) :
    (f.put d).rehash ≠ (f.put d).currentHash := by
  intro he
  apply hne
  cases f with
  | currentHash v =>
    -- The hash does not cover the field that holds it.
    have hv : v = d.currentHash := he.symm.trans hd
    simp only [DigestField.put, hv]
  | status v =>
    have hmix : (DigestField.put d (.status v)).rehash = d.rehash := he.trans hd.symm
    have hv : v = d.status := status_inj hf hs (mix_right_inj.1 hmix)
    simp only [DigestField.put, hv]
  | sequence v | requestId v | requestHash v | resultHash v | previousHash v =>
    have hmix := he.trans hd.symm
    simp only [DigestField.put, AgentContextDigest.rehash, mix_left_inj, mix_right_inj] at hmix
    simp only [DigestField.put, hmix]

/-! ### Verification -/

section

variable {c : ContextState}

theorem verify_bounds (h : agentContextDigestVerify c = 0) :
    c.contextDigestHead < agentContextDigestMax ∧ c.contextDigestCount ≤ agentContextDigestMax := by
  unfold agentContextDigestVerify at h
  split at h
  · cases h
  · omega

/-- Verification looks at each retained digest. -/
theorem verify_hashes {i : ℕ} (h : agentContextDigestVerify c = 0)
    (hi : i < c.contextDigestCount) :
    (c.contextDigests (digestSlot c i)).rehash = (c.contextDigests (digestSlot c i)).currentHash := by
  obtain ⟨hh, hc⟩ := verify_bounds h
  have hall := ((verify_iff c hh hc).1 h).2
  rw [retained_eq_cells c hh hc] at hall
  apply hall
  unfold cells
  exact List.mem_map.2 ⟨oldest c + i, List.mem_range'_1.2 ⟨by unfold oldest; omega,
    by unfold oldest; omega⟩, rfl⟩

theorem verify_cases (c : ContextState) :
    agentContextDigestVerify c = 0 ∨ agentContextDigestVerify c = -1 := by
  unfold agentContextDigestVerify
  dsimp only
  split_ifs <;> first | exact .inl rfl | exact .inr rfl

end

/-- **A changed digest** fails verification. -/
theorem digest_tamper (c : ContextState) (h : agentContextDigestVerify c = 0) (i : ℕ)
    (hi : i < c.contextDigestCount) (hs : IsInt (c.contextDigests (digestSlot c i)).status)
    (f : DigestField) (hf : f.Fits)
    (hne : f.put (c.contextDigests (digestSlot c i)) ≠ c.contextDigests (digestSlot c i)) :
    agentContextDigestVerify (tamper c i f) = -1 := by
  rcases verify_cases (tamper c i f) with hz | hz
  · -- The changed digest is retained in the same slot, and its hash is not the one it holds.
    have hhash := verify_hashes hz (i := i) hi
    have hslot : (tamper c i f).contextDigests (digestSlot (tamper c i f) i) =
        f.put (c.contextDigests (digestSlot c i)) := Function.update_self ..
    rw [hslot] at hhash
    exact absurd hhash (rehash_put_ne (verify_hashes h hi) hs hf hne)
  · exact hz

/-- The second of three records of a new process, its status changed. -/
theorem digest_tamper_first :
    agentContextDigestVerify (onePageRuns firstRecords).proc.ctx = 0 ∧
      agentContextDigestVerify (tamper (onePageRuns firstRecords).proc.ctx 1 (.status (-1))) = -1 := by
  have hend : agentContextDigestVerify (onePageRuns firstRecords).proc.ctx = 0 ∧
      1 < (onePageRuns firstRecords).proc.ctx.contextDigestCount ∧
      ((onePageRuns firstRecords).proc.ctx.contextDigests
        (digestSlot (onePageRuns firstRecords).proc.ctx 1)).status = 0 := by decide +kernel
  obtain ⟨hzero, hi, hstatus⟩ := hend
  refine ⟨hzero, digest_tamper _ hzero 1 hi ?_ _ (show IsInt (-1) by decide) fun hput => ?_⟩
  · rw [hstatus]
    decide
  · have hsame := congrArg AgentContextDigest.status hput
    rw [hstatus] at hsame
    exact absurd hsame (by decide)

end AgentOS
