import Mathlib.Data.Nat.Notation
import Mathlib.Data.List.Basic

/-!
# UTF-8

A text is a list of code points. `decode` replaces each piece that is no character by U+FFFD, one for
every longest beginning of a sequence; `encode` has no result for surrogates.

* **`decode_append_ascii`**: a character below 128 stands for itself wherever it is, so the text before
  it and the text behind it are decoded apart.
* `encode_ascii`: such characters are one byte each.
-/

namespace AgentOS.Utf8

/-- A sequence that has begun: the bytes owed, the bits so far and the range of the next byte. -/
structure Pending where
  owed : ℕ
  bits : ℕ
  low : ℕ
  high : ℕ
  low_ge : 128 ≤ low

/-- A sequence that goes on with any continuation byte. -/
def Pending.more (owed bits : ℕ) : Pending := ⟨owed, bits, 0x80, 0xBF, by decide⟩

/-- U+FFFD. -/
def replacement : ℕ := 0xFFFD

/-- The first byte of a sequence: what it yields and what it begins. -/
def lead (b : ℕ) : List ℕ × Option Pending :=
  if b < 0x80 then ([b], none)
  else if 0xC2 ≤ b ∧ b ≤ 0xDF then ([], some (.more 1 (b - 0xC0)))
  else if b = 0xE0 then ([], some ⟨2, 0, 0xA0, 0xBF, by decide⟩)
  else if b = 0xED then ([], some ⟨2, 0xD, 0x80, 0x9F, by decide⟩)
  else if 0xE1 ≤ b ∧ b ≤ 0xEF then ([], some (.more 2 (b - 0xE0)))
  else if b = 0xF0 then ([], some ⟨3, 0, 0x90, 0xBF, by decide⟩)
  else if b = 0xF4 then ([], some ⟨3, 4, 0x80, 0x8F, by decide⟩)
  else if 0xF1 ≤ b ∧ b ≤ 0xF3 then ([], some (.more 3 (b - 0xF0)))
  else ([replacement], none)

/-- One byte. A byte that does not go on with a sequence begins the next. -/
def step (st : Option Pending) (b : ℕ) : List ℕ × Option Pending :=
  match st with
  | none => lead b
  | some p =>
    if p.low ≤ b ∧ b ≤ p.high then
      let bits := p.bits * 64 + (b - 0x80)
      if p.owed = 1 then ([bits], none) else ([], some (.more (p.owed - 1) bits))
    else (replacement :: (lead b).1, (lead b).2)

/-- The text of the bytes, after the beginning of a sequence. -/
def decodeFrom (st : Option Pending) : List UInt8 → List ℕ
  | [] => if st.isSome then [replacement] else []
  | b :: s => (step st b.toNat).1 ++ decodeFrom (step st b.toNat).2 s

/-- `bytes.decode("utf-8", errors="replace")`. -/
def decode (s : List UInt8) : List ℕ := decodeFrom none s

/-- The bytes of a code point. -/
def encodeChar (c : ℕ) : Option (List ℕ) :=
  if c < 0x80 then some [c]
  else if c < 0x800 then some [0xC0 + c / 64, 0x80 + c % 64]
  else if 0xD800 ≤ c ∧ c < 0xE000 then none
  else if c < 0x10000 then some [0xE0 + c / 4096, 0x80 + c / 64 % 64, 0x80 + c % 64]
  else if c < 0x110000 then
    some [0xF0 + c / 262144, 0x80 + c / 4096 % 64, 0x80 + c / 64 % 64, 0x80 + c % 64]
  else none

/-- `str.encode("utf-8")`. -/
def encode : List ℕ → Option (List UInt8)
  | [] => some []
  | c :: s => do
    let bytes ← encodeChar c
    let rest ← encode s
    return bytes.map UInt8.ofNat ++ rest

variable {b : UInt8} {s t : List UInt8}

/-! ### Characters below 128 -/

theorem decodeFrom_cons (st : Option Pending) (b : UInt8) (s : List UInt8) :
    decodeFrom st (b :: s) = (step st b.toNat).1 ++ decodeFrom (step st b.toNat).2 s := rfl

/-- Such a byte ends a sequence that has begun. -/
theorem step_ascii (st : Option Pending) (hb : b.toNat < 128) :
    step st b.toNat = (decodeFrom st [] ++ [b.toNat], none) := by
  have hlead : lead b.toNat = ([b.toNat], none) := by
    unfold lead
    rw [if_pos hb]
  cases st with
  | none => exact hlead
  | some p =>
    have hlow := p.low_ge
    have hout : ¬ (p.low ≤ b.toNat ∧ b.toNat ≤ p.high) := by omega
    unfold step
    dsimp only
    rw [if_neg hout, hlead]
    rfl

/-- **The text before such a byte and the text behind it.** -/
theorem decodeFrom_append_ascii (st : Option Pending) (hb : b.toNat < 128) :
    decodeFrom st (t ++ b :: s) = decodeFrom st t ++ b.toNat :: decodeFrom none s := by
  induction t generalizing st with
  | nil =>
    rw [List.nil_append, decodeFrom_cons, step_ascii st hb, List.append_assoc]
    rfl
  | cons c t ih => rw [List.cons_append, decodeFrom_cons, decodeFrom_cons, ih, List.append_assoc]

theorem decode_append_ascii (hb : b.toNat < 128) :
    decode (t ++ b :: s) = decode t ++ b.toNat :: decode s :=
  decodeFrom_append_ascii none hb

/-- Bytes below 128 at the start. -/
theorem decode_ascii_append (ht : ∀ b ∈ t, b.toNat < 128) :
    decode (t ++ s) = t.map UInt8.toNat ++ decode s := by
  induction t with
  | nil => rfl
  | cons b t ih =>
    obtain ⟨hb, ht⟩ := List.forall_mem_cons.1 ht
    have hfirst := decode_append_ascii (t := []) (s := t ++ s) hb
    rw [List.nil_append] at hfirst
    rw [List.cons_append, hfirst, ih ht]
    rfl

/-- Code points below 128 are one byte each. -/
theorem encode_ascii {l : List ℕ} (hl : ∀ c ∈ l, c < 128) :
    encode l = some (l.map UInt8.ofNat) := by
  induction l with
  | nil => rfl
  | cons c l ih =>
    obtain ⟨hc, hl⟩ := List.forall_mem_cons.1 hl
    unfold encode encodeChar
    rw [if_pos hc, ih hl]
    rfl

end AgentOS.Utf8
