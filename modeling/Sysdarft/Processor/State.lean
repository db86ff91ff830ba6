import Mathlib.Logic.Function.Basic
import Sysdarft.Word

/-!
# Processor — registers, memory and the instruction stream

The state `processor` keeps, as far as `real_mode_target_access.cpp` and
`instruction_executor.cpp` touch it: the register file `CPU.Registers`, the instruction
pointer, and a flat byte-addressed memory. `cpu.h`, which declares them, is not in the
sources, so their shape is the spec's (§3 "Register file", "Memory"):

* `Registers`: eight 8-bit `R`, eight 16-bit `ExtendedRegister` (`EXR`), eight 32-bit
  `HalfExtendedRegister` (`HER`), sixteen 64-bit `FullyExtendedRegister` (`FER`) and the seven
  64-bit control registers.  `RegisterName` names one slot, and `Registers.get` and
  `Registers.set` read it zero-extended and write it narrowed, as the casts of
  `do_get_register` and `do_set_register` do.
* `Memory.read` and `Memory.write`: `length` consecutive bytes from an address, which is how the
  spec describes `get_memory` and `write_memory`; `Memory.read_write` and
  `Memory.write_apply_of_not_mem` are the lane and frame laws of a write.
* `pop`: the spec's `pop<N>`, which takes `N/8` bytes at the instruction pointer and advances it.

Operations run in `Exec`, the state monad whose errors keep the state they were raised in: a
C++ exception leaves every write made before the `throw` in place.
-/

namespace Sysdarft

/-! ### Memory -/

/-- A flat byte-addressed space over 64-bit addresses. -/
abbrev Memory := BitVec 64 → BitVec 8

namespace Memory

/-- The `n` bytes from address `a` on. -/
def read (m : Memory) (a : BitVec 64) : Nat → List (BitVec 8)
  | 0 => []
  | n + 1 => m a :: read m (a + 1) n

/-- `bs` written from address `a` on. -/
def write (m : Memory) (a : BitVec 64) : List (BitVec 8) → Memory
  | [] => m
  | b :: bs => Memory.write (Function.update m a b) (a + 1) bs

@[simp] theorem read_zero (m : Memory) (a : BitVec 64) : m.read a 0 = [] := rfl

@[simp] theorem read_succ (m : Memory) (a : BitVec 64) (n : Nat) :
    m.read a (n + 1) = m a :: m.read (a + 1) n := rfl

@[simp] theorem write_nil (m : Memory) (a : BitVec 64) : m.write a [] = m := rfl

@[simp] theorem write_cons (m : Memory) (a : BitVec 64) (b : BitVec 8) (bs : List (BitVec 8)) :
    m.write a (b :: bs) = Memory.write (Function.update m a b) (a + 1) bs := rfl

@[simp] theorem length_read (m : Memory) (a : BitVec 64) (n : Nat) : (m.read a n).length = n := by
  induction n generalizing a with
  | zero => rfl
  | succ n ih => simp [ih]

theorem read_add (m : Memory) (a : BitVec 64) (n k : Nat) :
    m.read a (n + k) = m.read a n ++ m.read (a + BitVec.ofNat 64 n) k := by
  induction n generalizing a with
  | zero => simp
  | succ n ih =>
    rw [Nat.add_right_comm, read_succ, read_succ, ih, BitVec.ofNat_add, BitVec.add_assoc,
      BitVec.add_comm 1, BitVec.ofNat_eq_ofNat]
    rfl

/-- The addresses `a, a + 1, …, a + (n - 1)`, the ones an `n`-byte access at `a` covers. -/
def Covers (a : BitVec 64) (n : Nat) (x : BitVec 64) : Prop :=
  ∃ i < n, x = a + BitVec.ofNat 64 i

theorem covers_succ {a x : BitVec 64} {n : Nat} :
    Covers a (n + 1) x ↔ x = a ∨ Covers (a + 1) n x := by
  constructor
  · rintro ⟨i, hi, rfl⟩
    cases i with
    | zero => simp
    | succ i =>
      refine .inr ⟨i, by omega, ?_⟩
      rw [BitVec.ofNat_add, BitVec.add_comm (BitVec.ofNat 64 i), BitVec.add_assoc]
      rfl
  · rintro (rfl | ⟨i, hi, rfl⟩)
    · exact ⟨0, by omega, by simp⟩
    · refine ⟨i + 1, by omega, ?_⟩
      rw [BitVec.ofNat_add, BitVec.add_comm (BitVec.ofNat 64 i), BitVec.add_assoc]
      rfl

/-- A write changes no byte outside the addresses it covers. -/
theorem write_apply_of_not_mem (m : Memory) (a : BitVec 64) (bs : List (BitVec 8))
    {x : BitVec 64} (hx : ¬ Covers a bs.length x) : m.write a bs x = m x := by
  induction bs generalizing m a with
  | nil => rfl
  | cons b bs ih =>
    rw [List.length_cons, covers_succ, not_or] at hx
    rw [write_cons, ih _ _ hx.2, Function.update_noteq hx.1]

/-- The addresses of one access of at most `2 ^ 64` bytes are distinct, so the first of them
is not among the others. -/
theorem not_covers_self (a : BitVec 64) {n : Nat} (hn : n < 2 ^ 64) : ¬ Covers (a + 1) n a := by
  rintro ⟨i, hi, h⟩
  have := congrArg BitVec.toNat h
  simp only [BitVec.toNat_add, BitVec.toNat_ofNat, show (1 : BitVec 64).toNat = 1 from rfl] at this
  have ha := a.isLt
  omega

/-- Reading the bytes just written gives them back. -/
theorem read_write (m : Memory) (a : BitVec 64) (bs : List (BitVec 8))
    (hn : bs.length ≤ 2 ^ 64) : (m.write a bs).read a bs.length = bs := by
  induction bs generalizing m a with
  | nil => rfl
  | cons b bs ih =>
    rw [List.length_cons] at hn
    rw [List.length_cons, read_succ, write_cons, ih _ _ (by omega),
      write_apply_of_not_mem _ _ _ (not_covers_self a (by omega)), Function.update_same]

end Memory

/-! ### Registers -/

/-- One slot of the register file. -/
inductive RegisterName
  | R (i : Fin 8)
  | ExtendedRegister (i : Fin 8)
  | HalfExtendedRegister (i : Fin 8)
  | FullyExtendedRegister (i : Fin 16)
  | StackBase
  | StackPointer
  | CodeBase
  | DataBase
  | DataPointer
  | ExtendedSegmentBase
  | ExtendedSegmentPointer
  deriving DecidableEq, Repr

/-- The width of a slot in bits. -/
def RegisterName.bits : RegisterName → Nat
  | .R _ => 8
  | .ExtendedRegister _ => 16
  | .HalfExtendedRegister _ => 32
  | _ => 64

/-- `CPU.Registers`. The control registers `SB, SP, CB, DB, DP, EB, EP` are the spec's. -/
structure Registers where
  R : Fin 8 → BitVec 8
  ExtendedRegister : Fin 8 → BitVec 16
  HalfExtendedRegister : Fin 8 → BitVec 32
  FullyExtendedRegister : Fin 16 → BitVec 64
  StackBase : BitVec 64
  StackPointer : BitVec 64
  CodeBase : BitVec 64
  DataBase : BitVec 64
  DataPointer : BitVec 64
  ExtendedSegmentBase : BitVec 64
  ExtendedSegmentPointer : BitVec 64

namespace Registers

/-- A slot, zero-extended to 64 bits (`return CPU.Registers.R0;` in a `uint64_t` function). -/
def get (rf : Registers) : RegisterName → BitVec 64
  | .R i => (rf.R i).setWidth 64
  | .ExtendedRegister i => (rf.ExtendedRegister i).setWidth 64
  | .HalfExtendedRegister i => (rf.HalfExtendedRegister i).setWidth 64
  | .FullyExtendedRegister i => rf.FullyExtendedRegister i
  | .StackBase => rf.StackBase
  | .StackPointer => rf.StackPointer
  | .CodeBase => rf.CodeBase
  | .DataBase => rf.DataBase
  | .DataPointer => rf.DataPointer
  | .ExtendedSegmentBase => rf.ExtendedSegmentBase
  | .ExtendedSegmentPointer => rf.ExtendedSegmentPointer

/-- A slot written with `x` cast to its width (`CPU.Registers.R0 = (uint8_t)reg;`). -/
def set (rf : Registers) : RegisterName → BitVec 64 → Registers
  | .R i, x => { rf with R := Function.update rf.R i (x.setWidth 8) }
  | .ExtendedRegister i, x =>
    { rf with ExtendedRegister := Function.update rf.ExtendedRegister i (x.setWidth 16) }
  | .HalfExtendedRegister i, x =>
    { rf with HalfExtendedRegister := Function.update rf.HalfExtendedRegister i (x.setWidth 32) }
  | .FullyExtendedRegister i, x =>
    { rf with FullyExtendedRegister := Function.update rf.FullyExtendedRegister i x }
  | .StackBase, x => { rf with StackBase := x }
  | .StackPointer, x => { rf with StackPointer := x }
  | .CodeBase, x => { rf with CodeBase := x }
  | .DataBase, x => { rf with DataBase := x }
  | .DataPointer, x => { rf with DataPointer := x }
  | .ExtendedSegmentBase, x => { rf with ExtendedSegmentBase := x }
  | .ExtendedSegmentPointer, x => { rf with ExtendedSegmentPointer := x }

/-- Reading a slot back gives what was written, modulo the slot's width. -/
theorem get_set_self (rf : Registers) (r : RegisterName) (x : BitVec 64) :
    ((rf.set r x).get r).toNat = x.toNat % 2 ^ r.bits := by
  cases r <;> simp [get, set, RegisterName.bits, Nat.mod_eq_of_lt x.isLt] <;> omega

/-- Writing a slot leaves every other slot as it was. -/
theorem get_set_of_ne (rf : Registers) {r r' : RegisterName} (x : BitVec 64) (h : r' ≠ r) :
    (rf.set r x).get r' = rf.get r' := by
  cases r <;> cases r' <;> simp_all [get, set, Function.update_apply]

end Registers

/-! ### The processor -/

/-- The part of `processor` the decoder and the executor read and write. -/
structure Processor where
  Registers : Registers
  InstructionPointer : BitVec 64
  Memory : Memory

/-- `IllegalInstruction`, the exception the decoder and the executor throw. -/
structure IllegalInstruction where
  message : String
  deriving DecidableEq, Repr

/-- A processor operation: the C++ exception keeps the state as it was at the `throw`. -/
abbrev Exec := EStateM IllegalInstruction Processor

/-- `processor::pop<LENGTH>`. Modelled from the spec: `cpu.h`, which declares it, is not in
the sources; its decoder "pulls bytes from memory starting at the instruction pointer via a
typed `pop<N>` that removes `N/8` bytes and advances the pointer", little-endian. -/
def pop (LENGTH : Nat) : Exec (BitVec LENGTH) := fun s =>
  .ok (BitVec.ofNat LENGTH (ofBytesLE (s.Memory.read s.InstructionPointer (LENGTH / 8))))
    { s with InstructionPointer := s.InstructionPointer + BitVec.ofNat 64 (LENGTH / 8) }

/-! ### The instruction stream -/

namespace Processor

/-- Every register zero and the bytes `bs` loaded from address 0, where the instruction pointer
is: the state `test.decode.cpp` sets up with `write_memory` before it decodes. -/
def load (bs : List (BitVec 8)) : Processor :=
  ⟨⟨fun _ => 0, fun _ => 0, fun _ => 0, fun _ => 0, 0, 0, 0, 0, 0, 0, 0⟩, 0,
    fun a => bs.getD a.toNat 0⟩

/-- The state with the instruction pointer `n` bytes further. -/
def advance (s : Processor) (n : Nat) : Processor :=
  { s with InstructionPointer := s.InstructionPointer + BitVec.ofNat 64 n }

/-- The bytes `bs` lie at the instruction pointer. -/
def At (s : Processor) (bs : List (BitVec 8)) : Prop :=
  s.Memory.read s.InstructionPointer bs.length = bs

@[simp] theorem advance_Registers (s : Processor) (n : Nat) :
    (s.advance n).Registers = s.Registers := rfl

@[simp] theorem advance_Memory (s : Processor) (n : Nat) : (s.advance n).Memory = s.Memory := rfl

@[simp] theorem advance_InstructionPointer (s : Processor) (n : Nat) :
    (s.advance n).InstructionPointer = s.InstructionPointer + BitVec.ofNat 64 n := rfl

@[simp] theorem advance_advance (s : Processor) (n k : Nat) :
    (s.advance n).advance k = s.advance (n + k) := by
  simp only [advance, BitVec.add_assoc, BitVec.ofNat_add]

theorem at_append {s : Processor} {bs cs : List (BitVec 8)} :
    s.At (bs ++ cs) ↔ s.At bs ∧ (s.advance bs.length).At cs := by
  simp only [At, List.length_append, Memory.read_add, advance]
  constructor
  · intro h
    exact List.append_inj h (by simp)
  · rintro ⟨h₁, h₂⟩
    rw [h₁, h₂]

theorem at_cons {s : Processor} {b : BitVec 8} {bs : List (BitVec 8)} :
    s.At (b :: bs) ↔ s.Memory s.InstructionPointer = b ∧ (s.advance 1).At bs := by
  simp only [At, List.length_cons, Memory.read_succ, List.cons.injEq, advance,
    BitVec.ofNat_eq_ofNat]

end Processor

/-- `pop<8>` takes the byte at the instruction pointer. -/
theorem pop_eight {s : Processor} {b : BitVec 8} {bs : List (BitVec 8)} (h : s.At (b :: bs)) :
    (pop 8).run s = .ok b (s.advance 1) := by
  have hb := (Processor.at_cons.mp h).1
  simp only [run_eq_apply, pop, Memory.read_succ, Memory.read_zero, ofBytesLE_cons, ofBytesLE_nil,
    hb, Nat.mul_zero, Nat.add_zero, BitVec.ofNat_toNat, BitVec.setWidth_eq]
  rfl

/-- `pop<64>` takes the eight bytes at the instruction pointer, little-endian. -/
theorem pop_sixty_four {s : Processor} {bs cs : List (BitVec 8)} (hlen : bs.length = 8)
    (h : s.At (bs ++ cs)) :
    (pop 64).run s = .ok (BitVec.ofNat 64 (ofBytesLE bs)) (s.advance 8) := by
  have hbs := (Processor.at_append.mp h).1
  simp only [Processor.At, hlen] at hbs
  simp only [run_eq_apply, pop, hbs]
  rfl

/-! ### Runs that only read -/

/-- The state a run ends in, whether it returns or throws. -/
def Exec.final {α : Type} : EStateM.Result IllegalInstruction Processor α → Processor
  | .ok _ s => s
  | .error _ s => s

/-- The value a run returns, or `none` when it throws. -/
def Exec.value? {α : Type} : EStateM.Result IllegalInstruction Processor α → Option α
  | .ok a _ => some a
  | .error _ _ => none

/-- `x` writes no register and no memory byte, whether it returns or throws. -/
def Exec.ReadsOnly {α : Type} (x : Exec α) : Prop :=
  ∀ s, (Exec.final (x.run s)).Registers = s.Registers ∧ (Exec.final (x.run s)).Memory = s.Memory

/-- `x` writes no register and no memory byte when it throws. -/
def Exec.KeepsOnError {α : Type} (x : Exec α) : Prop :=
  ∀ s e s', x.run s = .error e s' → s'.Registers = s.Registers ∧ s'.Memory = s.Memory

namespace Exec

variable {α β : Type}

theorem readsOnly_pure (a : α) : (pure a : Exec α).ReadsOnly := fun _ => ⟨rfl, rfl⟩

theorem readsOnly_throw (e : IllegalInstruction) : (throw e : Exec α).ReadsOnly :=
  fun _ => ⟨rfl, rfl⟩

theorem readsOnly_pop (n : Nat) : (pop n).ReadsOnly := fun _ => ⟨rfl, rfl⟩

theorem ReadsOnly.bind {x : Exec α} {f : α → Exec β} (hx : x.ReadsOnly)
    (hf : ∀ a, (f a).ReadsOnly) : (x >>= f).ReadsOnly := by
  intro s
  cases h : x.run s with
  | ok a s₁ =>
    have h₁ := hx s
    rw [h] at h₁
    rw [run_bind_of_ok h, (hf a s₁).1, (hf a s₁).2]
    exact h₁
  | error e s₁ =>
    have h₁ := hx s
    rw [h] at h₁
    rw [run_bind_of_error h]
    exact h₁

theorem ReadsOnly.ite {c : Prop} [Decidable c] {x y : Exec α} (hx : x.ReadsOnly)
    (hy : y.ReadsOnly) : (if c then x else y).ReadsOnly := by
  split
  · exact hx
  · exact hy

theorem KeepsOnError.bind {x : Exec α} {f : α → Exec β} (hx : x.ReadsOnly)
    (hf : ∀ a, (f a).KeepsOnError) : (x >>= f).KeepsOnError := by
  intro s e s' h
  cases hx' : x.run s with
  | ok a s₁ =>
    rw [run_bind_of_ok hx'] at h
    have h₁ := hx s
    rw [hx'] at h₁
    rw [(hf a s₁ e s' h).1, (hf a s₁ e s' h).2]
    exact h₁
  | error e₁ s₁ =>
    rw [run_bind_of_error hx'] at h
    cases h
    have h₁ := hx s
    rw [hx'] at h₁
    exact h₁

end Exec

end Sysdarft
