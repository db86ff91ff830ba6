import Mathlib.Algebra.Order.Group.Nat
import Mathlib.Data.Nat.Defs

/-!
# Basics — little-endian bytes and runs

Both halves of the repository move integers through byte buffers on a little-endian host:
the assembler's `push<LENGTH>` copies the low bytes of an integer into a
`std::vector<uint8_t>` and its `pop<LENGTH>` reads them back, and the processor's
`write_memory` and `get_memory` copy a `uint64_t` to and from memory through a `char *`.
Every one of these is the pair of maps below.

* `toBytesLE x n`, the `n` little-endian bytes of `x`, and `ofBytesLE`, the natural a byte
  list spells.
* `ofBytesLE_toBytesLE`: reading back what was written gives `x % 256 ^ n`, so nothing above
  the `n` bytes survives; `toBytesLE_ofBytesLE`: the other way round is exact.

Both halves also run their code in `EStateM`, with the exceptions the sources throw as its
errors; `run_bind_of_ok` and its neighbours take a `do` block apart one step at a time.
-/

namespace Sysdarft

/-- The `n` little-endian bytes of `x`; bits above `8 * n` are dropped. -/
def toBytesLE (x : Nat) : Nat → List (BitVec 8)
  | 0 => []
  | n + 1 => BitVec.ofNat 8 x :: toBytesLE (x / 256) n

/-- The natural whose little-endian bytes are `bs`. -/
def ofBytesLE : List (BitVec 8) → Nat
  | [] => 0
  | b :: bs => b.toNat + 256 * ofBytesLE bs

@[simp] theorem toBytesLE_zero (x : Nat) : toBytesLE x 0 = [] := rfl

@[simp] theorem toBytesLE_succ (x n : Nat) :
    toBytesLE x (n + 1) = BitVec.ofNat 8 x :: toBytesLE (x / 256) n := rfl

@[simp] theorem ofBytesLE_nil : ofBytesLE [] = 0 := rfl

@[simp] theorem ofBytesLE_cons (b : BitVec 8) (bs : List (BitVec 8)) :
    ofBytesLE (b :: bs) = b.toNat + 256 * ofBytesLE bs := rfl

@[simp] theorem length_toBytesLE (x n : Nat) : (toBytesLE x n).length = n := by
  induction n generalizing x with
  | zero => rfl
  | succ n ih => simp [ih]

theorem ofBytesLE_toBytesLE (x n : Nat) : ofBytesLE (toBytesLE x n) = x % 256 ^ n := by
  induction n generalizing x with
  | zero => simp [Nat.mod_one]
  | succ n ih =>
    rw [toBytesLE_succ, ofBytesLE_cons, ih, BitVec.toNat_ofNat, pow_succ' 256, Nat.mod_mul]

theorem ofBytesLE_lt (bs : List (BitVec 8)) : ofBytesLE bs < 256 ^ bs.length := by
  induction bs with
  | nil => simp
  | cons b bs ih =>
    have hb : b.toNat < 256 := b.isLt
    rw [ofBytesLE_cons, List.length_cons, pow_succ']
    omega

theorem toBytesLE_ofBytesLE (bs : List (BitVec 8)) : toBytesLE (ofBytesLE bs) bs.length = bs := by
  induction bs with
  | nil => rfl
  | cons b bs ih =>
    have hb : b.toNat < 256 := b.isLt
    have hdiv : (b.toNat + 256 * ofBytesLE bs) / 256 = ofBytesLE bs := by omega
    rw [List.length_cons, toBytesLE_succ, ofBytesLE_cons, hdiv, ih]
    congr 1
    apply BitVec.eq_of_toNat_eq
    rw [BitVec.toNat_ofNat]
    omega

/-! ### Operand prefixes -/

/-- `REGISTER_PREFIX`, the first byte of a register operand.  `encode.target.cpp` defines it;
`cpu.h`, not in the sources, declares the processor's, which §6 of the spec gives the same
value. -/
def REGISTER_PREFIX : BitVec 8 := 0x01

/-- `CONSTANT_PREFIX`, as `REGISTER_PREFIX`. -/
def CONSTANT_PREFIX : BitVec 8 := 0x02

/-- `MEMORY_PREFIX`, as `REGISTER_PREFIX`. -/
def MEMORY_PREFIX : BitVec 8 := 0x03

/-! ### Runs -/

section Runs

variable {ε σ α β : Type} {x : EStateM ε σ α} {f : α → EStateM ε σ β} {s s' : σ}

/-- A run is the computation applied to the state. -/
theorem run_eq_apply (y : EStateM ε σ α) (t : σ) : y.run t = y t := rfl

theorem run_bind_of_ok {a : α} (h : x.run s = .ok a s') : (x >>= f).run s = (f a).run s' := by
  simp only [run_eq_apply] at h ⊢
  simp only [bind, EStateM.bind, h]

theorem run_bind_of_error {e : ε} (h : x.run s = .error e s') :
    (x >>= f).run s = .error e s' := by
  simp only [run_eq_apply] at h ⊢
  simp only [bind, EStateM.bind, h]

/-- A bound run that returns ran its first part to a return. -/
theorem run_bind_eq_ok {b : β} {s'' : σ} (h : (x >>= f).run s = .ok b s'') :
    ∃ a s', x.run s = .ok a s' ∧ (f a).run s' = .ok b s'' := by
  simp only [run_eq_apply, bind, EStateM.bind] at h ⊢
  split at h
  · exact ⟨_, _, by assumption, h⟩
  · cases h

end Runs

end Sysdarft
