import AgentOS.Lib.Slice
import AgentOS.Model.QueryCache

/-!
# The loops of `param_value`

`param_value` as it runs: two pointers, a buffer and three `while` loops. The copies of it in
`kernel/agent_tool.c` and `kernel/agent_fs.c` are the same text. `paramValue` says what it computes.

A `char *` is the list of the bytes before the NUL, so that `*p` is `deref p`. Both inner loops end
because the string does; the outer one has fuel, and no result means that it has run out.
-/

namespace AgentOS

open Slice

/-- `*p`. -/
def deref (p : List UInt8) : UInt8 := p.headD 0

/-- `strncmp`. -/
def strncmp (p q : List UInt8) : ℕ → ℤ
  | 0 => 0
  | n + 1 =>
    if deref p ≠ 0 ∧ deref p = deref q then strncmp p.tail q.tail n
    else (deref p).toNat - (deref q).toNat

/-- The loop that copies the value; `n` bytes are in the buffer. -/
def copyValue (outsz : ℕ) (out : ℕ → UInt8) (n : ℕ) : List UInt8 → ℕ × (ℕ → UInt8)
  | [] => (n, out)
  | c :: p =>
    if c ≠ charSemicolon ∧ n < outsz - 1 then copyValue outsz (Function.update out n c) (n + 1) p
    else (n, out)

/-- The loop that goes to the end of a segment. -/
def skipSegment : List UInt8 → List UInt8
  | [] => []
  | c :: p => if c ≠ charSemicolon then skipSegment p else c :: p

/-- The outer loop, and the end of the function. -/
def paramValueFrom (key : List UInt8) (outsz : ℕ) (out : ℕ → UInt8) :
    ℕ → List UInt8 → Option (ℤ × (ℕ → UInt8))
  | 0, _ => none
  | fuel + 1, p =>
    if deref p ≠ 0 then
      if strncmp p key key.length = 0 ∧ deref (p.drop key.length) = charEquals then
        let (n, out) := copyValue outsz out 0 (p.drop (key.length + 1))
        some (0, Function.update out n 0)
      else
        let p := skipSegment p
        paramValueFrom key outsz out fuel (if deref p = charSemicolon then p.tail else p)
    else some (-1, if 0 < outsz then Function.update out 0 0 else out)

/-- `param_value` on the strings at `params` and `key`: what it returns and leaves in `out`. -/
def paramValueRun (fuel : ℕ) (params key : List UInt8) (out : ℕ → UInt8) (outsz : ℕ) :
    Option (ℤ × (ℕ → UInt8)) :=
  paramValueFrom (cstr key) outsz out fuel (cstr params)

/-- A buffer that holds the string `s`, and is as before behind it. -/
def putString (out : ℕ → UInt8) (s : List UInt8) : ℕ → UInt8 := write out 0 (s ++ [0])

end AgentOS
