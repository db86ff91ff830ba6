import Sysdarft.Processor.Executor
import Sysdarft.Processor.Grammar
import Sysdarft.Processor.Logged

/-!
# Processor — the instruction set `operation` implements

`processor::operation` decodes one instruction at the instruction pointer and runs it, in one
pass: the executor pops bytes, builds `Target` records and calls their accessors.  This module
states the instruction set apart from that pass, and proves that `operation` is exactly it.

* `Instruction` is an instruction as data: `NOP`, `ADD` with its width byte and two operands in
  the processor's layout (`CpuOperand`), or an opcode `operation` does not know.
  `Instruction.bytes` is its layout and `Instruction.step` what it does.
* `CpuOperand.load` and `CpuOperand.store` are what `get_target_content_in_u64bit_t` and
  `set_target_content_in_u64bit_t` do on the target an operand denotes (`Target.get_denoted`,
  `Target.set_denoted`).  As in the code, a memory load reads eight bytes whatever the width,
  and a store narrows to it.

Main results:

* `operation_iff_step`: `operation` returns in `s'` exactly when the bytes at the pointer are an
  instruction whose step from `s` is `s'`; `Instruction.layout_prefix_free`: the layout is a
  prefix code, so that instruction is unique.
* `operation_frame`: a step that returns moves the pointer past its instruction and writes one
  register, neither a base register nor `FER8`–`FER15`, or at most eight consecutive bytes.
* `Runs`, the runs of `operation`, with `runs_keep_unreached_registers` (no run, and no throw
  at its end, changes `SB`, `CB`, `DB`, `EB` or `FER8`–`FER15`) and
  `runs_ignore_upper_fully_extended` (what `FER8`–`FER15` hold never flows anywhere).
* The debug log.  `Instruction.logLine` is the line an instruction prints.  The logged
  `operation` steps as `operation` does and prints the line of the instruction it executed
  (`Logged.step_of_operation`, `Logged.operation_of_step`; the two results about `operation`
  follow from these by erasing the output).  Over runs, `Logged.runs_erase` says the runs of
  `operation` are the logged runs with their output erased, and `Logged.runs_print_executed`
  that a run's log is the lines of the instructions it executed.  `Logged.operation_error`: a
  step that throws prints nothing, or the line of an `ADD` that did not take place.
-/

namespace Sysdarft

variable (ci : ControlRegisterIndex)

/-! ### Operands -/

/-- The width tags `set_target_content_in_u64bit_t` narrows a store to. -/
abbrev DataWidth (w : BitVec 8) : Prop :=
  w = 0x08 ∨ w = 0x16 ∨ w = 0x32 ∨ w = 0x64

/-- The address of a memory operand in `s`: the sum of its sub-operands' values times the ratio
byte, or `none` where a sub-operand has no value. -/
def memoryAddress (s : Processor) (b o1 o2 : CpuSub) (r : BitVec 8) : Option (BitVec 64) := do
  let vb ← b.value ci s
  let v1 ← o1.value ci s
  let v2 ← o2.value ci s
  pure ((vb + v1 + v2) * r.setWidth 64)

/-- The value an operand loads in `s`, or `none` where the load throws. -/
def CpuOperand.load (s : Processor) : CpuOperand → Option (BitVec 64)
  | .register w i => (selectRegister ci 8 w i).map s.Registers.get
  | .constant v => some v
  | .memory _ b o1 o2 r =>
    (memoryAddress ci s b o1 o2 r).map fun a => BitVec.ofNat 64 (ofBytesLE (s.Memory.read a 8))

/-- The state after an operand stores `x` in `s`, or `none` where the store throws. -/
def CpuOperand.store (s : Processor) (x : BitVec 64) : CpuOperand → Option Processor
  | .register w i =>
    (selectRegister ci 16 w i).map fun r => { s with Registers := s.Registers.set r x }
  | .constant _ => none
  | .memory w b o1 o2 r =>
    if DataWidth w then
      (memoryAddress ci s b o1 o2 r).map fun a =>
        { s with Memory := s.Memory.write a (toBytesLE x.toNat (widthBits w / 8)) }
    else none

theorem memoryAddress_eq_some {s : Processor} {b o1 o2 : CpuSub} {r : BitVec 8} {a : BitVec 64} :
    memoryAddress ci s b o1 o2 r = some a ↔ ∃ vb v1 v2, b.value ci s = some vb ∧
      o1.value ci s = some v1 ∧ o2.value ci s = some v2 ∧ a = (vb + v1 + v2) * r.setWidth 64 := by
  simp only [memoryAddress, Option.bind_eq_bind, Option.bind_eq_some, Option.pure_def,
    Option.some.injEq]
  constructor
  · rintro ⟨vb, hb, v1, h1, v2, h2, rfl⟩
    exact ⟨vb, v1, v2, hb, h1, h2, rfl⟩
  · rintro ⟨vb, v1, v2, hb, h1, h2, rfl⟩
    exact ⟨vb, hb, v1, h1, v2, h2, rfl⟩

section Congr

variable {s s' : Processor}

theorem CpuSub.value_congr (p : CpuSub) (h : s.Registers = s'.Registers) :
    p.value ci s = p.value ci s' := by
  cases p <;> simp only [CpuSub.value, h]

/-- Whether an operand is accepted, and what it denotes, depend on the registers alone. -/
theorem CpuOperand.accepted_congr (op : CpuOperand) (h : s.Registers = s'.Registers) :
    op.Accepted ci s ↔ op.Accepted ci s' := by
  cases op <;> simp only [CpuOperand.Accepted, CpuSub.value_congr ci _ h]

theorem CpuOperand.denotes_congr (op : CpuOperand) {t : Target} (h : s.Registers = s'.Registers) :
    op.Denotes ci s t ↔ op.Denotes ci s' t := by
  cases op <;> simp only [CpuOperand.Denotes, CpuSub.value_congr ci _ h]

end Congr

/-- An operand that loads is one the decoder accepts. -/
theorem CpuOperand.accepted_of_load {s : Processor} {op : CpuOperand} {v : BitVec 64}
    (h : op.load ci s = some v) : op.Accepted ci s := by
  cases op with
  | register w i =>
    obtain ⟨r, hr, -⟩ := Option.map_eq_some'.mp h
    rcases selectRegister_width ci hr with hw | hw | hw | hw <;> simp [CpuOperand.Accepted,
      RegisterWidth, hw]
  | constant => trivial
  | memory =>
    obtain ⟨a, ha, -⟩ := Option.map_eq_some'.mp h
    obtain ⟨vb, v1, v2, hb, h1, h2, -⟩ := (memoryAddress_eq_some ci).mp ha
    simp [CpuOperand.Accepted, hb, h1, h2]

/-! ### The accessors on a denoted target -/

/-- On the target an operand denotes, `get_target_content_in_u64bit_t` returns what the
operand loads and changes nothing, and throws where it loads nothing. -/
theorem Target.get_denoted {s s' : Processor} {t : Target} {op : CpuOperand}
    (h : op.Denotes ci s t) {v : BitVec 64} :
    (t.get_target_content_in_u64bit_t ci).run s = .ok v s' ↔ op.load ci s = some v ∧ s' = s := by
  cases op with
  | register w i =>
    obtain ⟨hty, rfl, rfl⟩ := h
    rw [get_target_content_register ci _ hty]
    simp only [run_eq_apply, Target.do_get_register, CpuOperand.load]
    cases selectRegister ci 8 t.TargetWidth t.RegisterIndex <;> simp [eq_comm]
  | constant c =>
    obtain ⟨hty, rfl⟩ := h
    rw [Target.get_target_content_constant ci _ hty]
    simp [CpuOperand.load, eq_comm]
  | memory w b o1 o2 r =>
    obtain ⟨vb, v1, v2, hb, h1, h2, hty, -, haddr⟩ := h
    rw [get_target_content_memory ci s _ hty]
    simp [CpuOperand.load, memoryAddress, hb, h1, h2, haddr, eq_comm]

/-- A store to a target whose width is no data width throws before it writes. -/
theorem Target.set_target_content_bad_width (t : Target) (x : BitVec 64)
    (hw : ¬ DataWidth t.TargetWidth) (s : Processor) :
    ∃ e, (t.set_target_content_in_u64bit_t ci x).run s = .error e s := by
  simp only [DataWidth, not_or] at hw
  simp only [Target.set_target_content_in_u64bit_t, hw.1, hw.2.1, hw.2.2.1, hw.2.2.2, if_false]
  exact ⟨_, rfl⟩

/-- On the target an operand denotes, `set_target_content_in_u64bit_t` returns in the state the
operand's store gives, and throws where it gives none. -/
theorem Target.set_denoted {s s' : Processor} {t : Target} {op : CpuOperand}
    (h : op.Denotes ci s t) {x : BitVec 64} :
    (t.set_target_content_in_u64bit_t ci x).run s = .ok () s' ↔ op.store ci s x = some s' := by
  by_cases hw : DataWidth t.TargetWidth
  · cases op with
    | register w i =>
      obtain ⟨hty, rfl, rfl⟩ := h
      rw [set_target_content_register ci s _ x hty hw]
      simp only [run_eq_apply, Target.do_set_register, CpuOperand.store]
      cases selectRegister ci 16 t.TargetWidth t.RegisterIndex <;> simp [eq_comm]
    | constant c =>
      obtain ⟨hty, -⟩ := h
      rcases hw with hw | hw | hw | hw <;>
        simp [Target.set_target_content_in_u64bit_t, hw, hty, CpuOperand.store] <;> nofun
    | memory w b o1 o2 r =>
      obtain ⟨vb, v1, v2, hb, h1, h2, hty, rfl, haddr⟩ := h
      rw [set_target_content_memory ci s _ x hty hw]
      simp [CpuOperand.store, hw, memoryAddress, hb, h1, h2, haddr, eq_comm]
  · obtain ⟨e, he⟩ := t.set_target_content_bad_width ci x hw s
    rw [he]
    refine ⟨nofun, fun hs => ?_⟩
    cases op with
    | register w i =>
      obtain ⟨-, rfl, rfl⟩ := h
      obtain ⟨r, hr, -⟩ := Option.map_eq_some'.mp hs
      exact (hw (selectRegister_width ci hr)).elim
    | constant => cases hs
    | memory w =>
      obtain ⟨_, _, _, -, -, -, -, rfl, -⟩ := h
      simp [CpuOperand.store, hw] at hs

/-! ### Instructions -/

/-- An instruction as `operation` reads it: the 64-bit opcode `0x00` (`NOP`), the opcode `0x01`
(`ADD`) with its width byte and two operands, or any other opcode. -/
inductive Instruction
  | nop
  | add (width : BitVec 8) (operand1 operand2 : CpuOperand)
  | illegal (opcode : BitVec 64) (not_nop : opcode ≠ 0x00) (not_add : opcode ≠ 0x01)

/-- The bytes of an instruction, opcode first. -/
def Instruction.bytes : Instruction → List (BitVec 8)
  | .nop => toBytesLE 0 8
  | .add w op1 op2 => toBytesLE 1 8 ++ w :: (op1.bytes ++ op2.bytes)
  | .illegal opcode _ _ => toBytesLE opcode.toNat 8

/-- What an instruction does in `s`, or `none` where `operation` throws.  `ADD` loads both
operands, adds the values modulo `2^64` and stores the sum through the first; its width byte is
read and not used.  An unknown opcode raises the illegal-instruction interrupt, whose
`soft_interruption_ready` is empty. -/
def Instruction.step (s : Processor) : Instruction → Option Processor
  | .nop => some (s.advance 8)
  | .add _ op1 op2 => do
    let s₁ := s.advance (9 + op1.bytes.length + op2.bytes.length)
    let value1 ← op1.load ci s₁
    let value2 ← op2.load ci s₁
    op1.store ci s₁ (value1 + value2)
  | .illegal .. => some (s.advance 8)

/-- The line an instruction prints: the arguments `nop` and `add` give `debug::log`, with each
operand's text between angle brackets as `Target` builds it; an unknown opcode prints nothing. -/
def Instruction.logLine : Instruction → List String
  | .nop => [String.join ["[PROCESSOR]:\tNOP\n"]]
  | .add _ op1 op2 =>
    [String.join ["[PROCESSOR]:\tADD ", "<" ++ op1.literal ++ ">", ", ", "<" ++ op2.literal ++ ">",
      "\n"]]
  | .illegal .. => []

/-- The opcode `operation` pops is the eight bytes at the pointer. -/
theorem Processor.at_opcode (s : Processor) :
    s.At (toBytesLE
      (BitVec.ofNat 64 (ofBytesLE (s.Memory.read s.InstructionPointer 8))).toNat 8) := by
  rw [toBytesLE_read_eight]
  exact Processor.at_read s 8

/-- An opcode `0x01`, a width byte and two operands at the pointer are an `ADD`. -/
theorem Instruction.at_add {s : Processor} {op1 op2 : CpuOperand} (hop : s.At (toBytesLE 1 8))
    (hat₁ : ((s.advance 8).advance 1).At op1.bytes)
    (hat₂ : (((s.advance 8).advance 1).advance op1.bytes.length).At op2.bytes) :
    s.At (Instruction.add (s.Memory (s.InstructionPointer + 8)) op1 op2).bytes := by
  simp only [Instruction.bytes, Processor.at_append, Processor.at_cons, length_toBytesLE,
    Processor.advance_advance]
  simp only [Processor.advance_advance] at hat₁ hat₂
  exact ⟨hop, rfl, hat₁, hat₂⟩

/-- Every instruction the logged `operation` reads to a return is one whose step it took, and the
line it printed is that instruction's. -/
theorem Logged.step_of_operation {s s' : Processor} {out out' : List String}
    (h : (Logged.operation ci).run (s, out) = .ok () (s', out')) :
    ∃ i : Instruction, s.At i.bytes ∧ i.step ci s = some s' ∧ out' = out ++ i.logLine := by
  have hat := Processor.at_opcode s
  simp only [Logged.operation] at h
  rw [Exec.quiet_bind_of_ok (pop_sixty_four_run s)] at h
  split_ifs at h with h₀ h₁
  · cases h
    exact ⟨.nop, by rwa [h₀] at hat, rfl, rfl⟩
  · simp only [Logged.add, pop_target] at h
    rw [Exec.quiet_bind_of_ok (pop_eight_run _)] at h
    obtain ⟨t₁, s₁, hc₁, h⟩ := Exec.quiet_bind_eq_ok h
    obtain ⟨op1, -, hat₁, rfl, hd₁, hlit₁⟩ := Target.read_of_construct ci hc₁
    obtain ⟨t₂, s₂, hc₂, h⟩ := Exec.quiet_bind_eq_ok h
    obtain ⟨op2, -, hat₂, rfl, hd₂, hlit₂⟩ := Target.read_of_construct ci hc₂
    rw [debug_log_bind_run] at h
    obtain ⟨h, rfl : out' = _⟩ := Exec.quiet_eq_ok.mp h
    obtain ⟨v₁, s₃, hg₁, h⟩ := run_bind_eq_ok h
    obtain ⟨hl₁, rfl⟩ :=
      (Target.get_denoted ci ((op1.denotes_congr ci (by simp)).mp hd₁)).mp hg₁
    obtain ⟨v₂, s₄, hg₂, h⟩ := run_bind_eq_ok h
    obtain ⟨hl₂, rfl⟩ :=
      (Target.get_denoted ci ((op2.denotes_congr ci (by simp)).mp hd₂)).mp hg₂
    have hst := (Target.set_denoted ci ((op1.denotes_congr ci (by simp)).mp hd₁)).mp h
    refine ⟨.add (s.Memory (s.InstructionPointer + 8)) op1 op2,
      Instruction.at_add (by rwa [h₁] at hat) hat₁ hat₂, ?_, ?_⟩
    · simp only [Instruction.step, Processor.advance_advance, Nat.reduceAdd] at hl₁ hl₂ hst ⊢
      rw [hl₁, hl₂]
      exact hst
    · rw [Instruction.logLine, hlit₁, hlit₂]
  · obtain ⟨h, rfl : out' = out⟩ := Exec.quiet_eq_ok.mp h
    cases h
    exact ⟨.illegal _ h₀ h₁, hat, rfl, (List.append_nil _).symm⟩

/-- On the bytes of an instruction whose step is defined, the logged `operation` takes the step
and prints the instruction's line. -/
theorem Logged.operation_of_step {s s' : Processor} {i : Instruction} (hat : s.At i.bytes)
    (h : i.step ci s = some s') (out : List String) :
    (Logged.operation ci).run (s, out) = .ok () (s', out ++ i.logLine) := by
  cases i with
  | nop =>
    cases h
    simp only [Logged.operation]
    rw [Exec.quiet_bind_of_ok (@pop_sixty_four_value s 0 [] (by simpa using hat)), if_pos rfl]
    rfl
  | illegal opcode h₀ h₁ =>
    cases h
    simp only [Logged.operation]
    rw [Exec.quiet_bind_of_ok (@pop_sixty_four_value s opcode [] (by simpa using hat)),
      if_neg h₀, if_neg h₁]
    exact Exec.quiet_eq_ok.mpr ⟨rfl, List.append_nil _⟩
  | add w op1 op2 =>
    simp only [Instruction.step, Option.bind_eq_bind, Option.bind_eq_some] at h
    obtain ⟨v₁, hl₁, v₂, hl₂, hst⟩ := h
    have hops := hat
    simp only [Instruction.bytes, Processor.at_append, Processor.at_cons, length_toBytesLE,
      Processor.advance_advance, Nat.reduceAdd] at hops
    obtain ⟨-, -, hat₁, hat₂⟩ := hops
    obtain ⟨t₁, hc₁, hd₁, hlit₁⟩ := @Target.construct_literal_of_accepted ci
      (s.advance 9) op1 ((op1.accepted_congr ci (by simp)).mp (op1.accepted_of_load ci hl₁)) []
      (by simpa using hat₁)
    obtain ⟨t₂, hc₂, hd₂, hlit₂⟩ := @Target.construct_literal_of_accepted ci
      (s.advance (9 + op1.bytes.length)) op2
      ((op2.accepted_congr ci (by simp)).mp (op2.accepted_of_load ci hl₂)) []
      (by simpa using hat₂)
    simp only [Logged.operation]
    rw [Exec.quiet_bind_of_ok (pop_sixty_four_value (v := 0x01) hat), if_neg (by decide),
      if_pos rfl]
    simp only [Logged.add, pop_target]
    rw [Exec.quiet_bind_of_ok (pop_eight_run _)]
    simp only [Processor.advance_advance, Nat.reduceAdd]
    rw [Exec.quiet_bind_of_ok hc₁, Processor.advance_advance, Exec.quiet_bind_of_ok hc₂,
      Processor.advance_advance, debug_log_bind_run]
    refine Exec.quiet_eq_ok.mpr ⟨?_, by rw [Instruction.logLine, hlit₁, hlit₂]⟩
    rw [add_assign,
      run_bind_of_ok ((Target.get_denoted ci ((op1.denotes_congr ci (by simp)).mp hd₁)).mpr
        ⟨hl₁, rfl⟩),
      run_bind_of_ok ((Target.get_denoted ci ((op2.denotes_congr ci (by simp)).mp hd₂)).mpr
        ⟨hl₂, rfl⟩)]
    exact (Target.set_denoted ci ((op1.denotes_congr ci (by simp)).mp hd₁)).mpr hst

/-- Every instruction `operation` reads to a return is one whose step it took. -/
theorem step_of_operation {s s' : Processor} (h : (operation ci).run s = .ok () s') :
    ∃ i : Instruction, s.At i.bytes ∧ i.step ci s = some s' := by
  obtain ⟨out, hlog⟩ := Logged.erase_eq_ok.mp ((Logged.operation_erases ci s []).trans h)
  obtain ⟨i, hat, hi, -⟩ := Logged.step_of_operation ci hlog
  exact ⟨i, hat, hi⟩

/-- On the bytes of an instruction, `operation` takes its step whenever the step is defined. -/
theorem operation_of_step {s s' : Processor} {i : Instruction} (hat : s.At i.bytes)
    (h : i.step ci s = some s') : (operation ci).run s = .ok () s' := by
  rw [← Logged.operation_erases ci s [], Logged.operation_of_step ci hat h]
  rfl

/-- `operation` is the instruction set's step: it returns in `s'` exactly when the bytes at the
pointer are an instruction whose step from `s` is `s'`. -/
theorem operation_iff_step (s s' : Processor) :
    (operation ci).run s = .ok () s' ↔ ∃ i : Instruction, s.At i.bytes ∧ i.step ci s = some s' :=
  ⟨step_of_operation ci, fun ⟨_, hat, h⟩ => operation_of_step ci hat h⟩

/-! ### The layout is a prefix code -/

/-- The opcode an instruction's bytes start with. -/
def Instruction.opcode : Instruction → BitVec 64
  | .nop => 0x00
  | .add .. => 0x01
  | .illegal opcode _ _ => opcode

theorem Instruction.bytes_eq (i : Instruction) :
    ∃ operands, i.bytes = toBytesLE i.opcode.toNat 8 ++ operands := by
  cases i
  · exact ⟨[], (List.append_nil _).symm⟩
  · exact ⟨_, rfl⟩
  · exact ⟨[], (List.append_nil _).symm⟩

/-- The instruction layout is a prefix code: bytes that start with one instruction start with no
other, so the instruction `operation_iff_step` finds at the pointer is unique. -/
theorem Instruction.layout_prefix_free {i j : Instruction} {r r' : List (BitVec 8)}
    (h : i.bytes ++ r = j.bytes ++ r') : i = j ∧ r = r' := by
  have hop : i.opcode = j.opcode := by
    obtain ⟨u, hu⟩ := i.bytes_eq
    obtain ⟨v, hv⟩ := j.bytes_eq
    rw [hu, hv, List.append_assoc, List.append_assoc] at h
    exact (toBytesLE_append_inj h).1
  cases i <;> cases j
  case nop.nop => exact ⟨rfl, List.append_cancel_left h⟩
  case add.add =>
    simp only [Instruction.bytes, List.append_assoc, List.append_cancel_left_eq, List.cons_append,
      List.cons.injEq] at h
    obtain ⟨rfl, h₀⟩ := h
    obtain ⟨rfl, h₁⟩ := CpuOperand.bytes_append_inj h₀
    obtain ⟨rfl, rfl⟩ := CpuOperand.bytes_append_inj h₁
    exact ⟨rfl, rfl⟩
  case illegal.illegal =>
    cases hop
    exact ⟨rfl, List.append_cancel_left h⟩
  case nop.add | add.nop => exact absurd hop (by simp only [Instruction.opcode]; decide)
  case nop.illegal _ h₀ _ => exact absurd hop.symm h₀
  case illegal.nop h₀ _ => exact absurd hop h₀
  case add.illegal _ _ h₁ => exact absurd hop.symm h₁
  case illegal.add h₁ _ _ _ => exact absurd hop h₁

/-- `ADD .64bit %FER0, $(5)`, followed by a `NOP`. -/
theorem Instruction.layout_prefix_free_add :
    (Instruction.add 0x64 (.register 0x64 0) (.constant 5)).bytes ++ Instruction.nop.bytes =
      (Instruction.add 0x64 (.register 0x64 0) (.constant 5)).bytes ++ Instruction.nop.bytes ∧
    (Instruction.add 0x64 (.register 0x64 0) (.constant 5) =
      Instruction.add 0x64 (.register 0x64 0) (.constant 5) ∧
      Instruction.nop.bytes = Instruction.nop.bytes) :=
  ⟨rfl, Instruction.layout_prefix_free rfl⟩

/-! ### What a step writes -/

/-- `s'` is `s` after at most one store: to one register that is neither a base register nor one
of `FER8`–`FER15`, or to at most eight consecutive bytes. -/
def Processor.OneStore (s s' : Processor) : Prop :=
  (∃ r x, ¬ r.IsBase ∧ ¬ r.IsUpperFullyExtended ∧ s'.Registers = s.Registers.set r x) ∧
      s'.Memory = s.Memory ∨
    s'.Registers = s.Registers ∧ ∃ a bs, bs.length ≤ 8 ∧ s'.Memory = s.Memory.write a bs

/-- The reader's table selects no `FER8`–`FER15`. -/
theorem selectRegister_eight_not_upper {w i : BitVec 8} {r : RegisterName}
    (h : selectRegister ci 8 w i = some r) : ¬ r.IsUpperFullyExtended := by
  rintro ⟨j, hj, rfl⟩
  have := (tag_of_selectRegister ci h).2.2 j rfl
  omega

theorem widthBits_le (w : BitVec 8) : widthBits w ≤ 64 := by
  unfold widthBits
  split_ifs <;> omega

/-- A store through an operand that loads writes what `OneStore` allows, and leaves the pointer. -/
theorem CpuOperand.store_oneStore {s s' : Processor} {op : CpuOperand} {v x : BitVec 64}
    (hl : op.load ci s = some v) (h : op.store ci s x = some s') :
    s'.InstructionPointer = s.InstructionPointer ∧ s.OneStore s' := by
  cases op with
  | register w i =>
    obtain ⟨r₈, hr₈, -⟩ := Option.map_eq_some'.mp hl
    obtain ⟨r, hr, rfl⟩ := Option.map_eq_some'.mp h
    rw [selectRegister_sixteen_of_eight ci hr₈] at hr
    cases hr
    exact ⟨rfl, .inl ⟨⟨r₈, x, (tag_of_selectRegister ci hr₈).2.1,
      selectRegister_eight_not_upper ci hr₈, rfl⟩, rfl⟩⟩
  | constant => cases h
  | memory w b o1 o2 r =>
    simp only [CpuOperand.store] at h
    split_ifs at h
    obtain ⟨a, -, rfl⟩ := Option.map_eq_some'.mp h
    refine ⟨rfl, .inr ⟨rfl, a, _, ?_, rfl⟩⟩
    rw [length_toBytesLE]
    have := widthBits_le w
    omega

/-- A step writes what `OneStore` allows and moves the pointer past its instruction. -/
theorem Instruction.step_frame {s s' : Processor} {i : Instruction} (h : i.step ci s = some s') :
    s'.InstructionPointer = s.InstructionPointer + BitVec.ofNat 64 i.bytes.length ∧
      s.OneStore s' := by
  cases i with
  | add w op1 op2 =>
    simp only [Instruction.step, Option.bind_eq_bind, Option.bind_eq_some] at h
    obtain ⟨v₁, hl₁, v₂, -, hst⟩ := h
    obtain ⟨hip, hone⟩ := op1.store_oneStore ci hl₁ hst
    refine ⟨?_, hone⟩
    rw [hip, Processor.advance_InstructionPointer]
    congr 2
    simp only [Instruction.bytes, List.length_append, List.length_cons, length_toBytesLE]
    omega
  | nop | illegal =>
    cases h
    exact ⟨by simp [Instruction.bytes], .inr ⟨rfl, 0, [], Nat.zero_le _, rfl⟩⟩

/-- The frame of `operation`: a step that returns has run an instruction at the pointer, moved
the pointer past its bytes, and written one register, neither a base register nor one of
`FER8`–`FER15`, or at most eight consecutive memory bytes, and nothing else. -/
theorem operation_frame {s s' : Processor} (h : (operation ci).run s = .ok () s') :
    ∃ i : Instruction, s.At i.bytes ∧
      s'.InstructionPointer = s.InstructionPointer + BitVec.ofNat 64 i.bytes.length ∧
      s.OneStore s' := by
  obtain ⟨i, hat, hs⟩ := step_of_operation ci h
  exact ⟨i, hat, Instruction.step_frame ci hs⟩

/-- The processor loaded with `ADD .64bit %FER0, $(5)`: the opcode, the width `64`, the register
`01 64 00` and the constant `02 64` with its eight bytes. -/
def Processor.sampleAdd : Processor :=
  Processor.load (toBytesLE 1 8 ++ [0x64, 0x01, 0x64, 0x00, 0x02, 0x64] ++ toBytesLE 5 8)

/-- `Processor.sampleAdd` after its `ADD`: the pointer past the 22 bytes and `5` in `FER0`. -/
def Processor.sampleAddDone : Processor :=
  { Processor.sampleAdd.advance 22 with
    Registers := Processor.sampleAdd.Registers.set (.FullyExtendedRegister 0) 5 }

/-- `ADD .64bit %FER0, $(5)` from the zero state writes `FER0` and moves the pointer by 22. -/
theorem operation_frame_add_constant :
    (operation .sample).run Processor.sampleAdd = .ok () Processor.sampleAddDone ∧
    ∃ i : Instruction, Processor.sampleAdd.At i.bytes ∧
      Processor.sampleAddDone.InstructionPointer =
        Processor.sampleAdd.InstructionPointer + BitVec.ofNat 64 i.bytes.length ∧
      Processor.sampleAdd.OneStore Processor.sampleAddDone := by
  refine ⟨?run, operation_frame .sample ?run⟩
  rfl

/-! ### Runs -/

/-- The runs of the processor: the states reached from `s` by steps of `operation` that return.
The loop that calls `operation` is in `cpu.cpp`, which is not in the sources. -/
inductive Runs : Processor → Processor → Prop
  | refl (s : Processor) : Runs s s
  | head {s s₁ s' : Processor} (step : (operation ci).run s = .ok () s₁) (rest : Runs s₁ s') :
    Runs s s'

/-- `operation` changes no register and no memory byte when it throws. -/
theorem operation_keepsOnError : (operation ci).KeepsOnError :=
  Exec.KeepsOnError.bind (Exec.readsOnly_pop 64) fun opcode => by
    unfold nop soft_interruption_ready
    split_ifs
    · exact fun _ _ _ h => nomatch h
    · exact add_keepsOnError ci
    · exact fun _ _ _ h => nomatch h

theorem Processor.OneStore.get_unreached {s s' : Processor} (h : s.OneStore s') {r : RegisterName}
    (hr : r.IsBase ∨ r.IsUpperFullyExtended) : s'.Registers.get r = s.Registers.get r := by
  rcases h with ⟨⟨r', x, hb, hu, hreg⟩, -⟩ | ⟨hreg, -⟩
  · have hne : r ≠ r' := by
      rintro rfl
      exact hr.elim hb hu
    rw [hreg, Registers.get_set_of_ne _ _ hne]
  · rw [hreg]

/-- No run changes a base register `SB`, `CB`, `DB`, `EB` or one of `FER8`–`FER15`, and
neither does a step that throws at its end: the reader's table reaches none of them, and
`ADD` stores only through an operand it has loaded. -/
theorem runs_keep_unreached_registers {s s' : Processor} (h : Runs ci s s') {r : RegisterName}
    (hr : r.IsBase ∨ r.IsUpperFullyExtended) :
    s'.Registers.get r = s.Registers.get r ∧
      ∀ e s'', (operation ci).run s' = .error e s'' → s''.Registers.get r = s.Registers.get r := by
  induction h with
  | refl s => exact ⟨rfl, fun e s'' he => by rw [(operation_keepsOnError ci s e s'' he).1]⟩
  | head step _ ih =>
    obtain ⟨i, -, hs⟩ := step_of_operation ci step
    rw [← (Instruction.step_frame ci hs).2.get_unreached hr]
    exact ih

/-- One `ADD .64bit %FER0, $(5)` from the zero state keeps the stack base. -/
theorem runs_keep_unreached_registers_add :
    Runs .sample Processor.sampleAdd Processor.sampleAddDone ∧
    (RegisterName.StackBase.IsBase ∨ RegisterName.StackBase.IsUpperFullyExtended) ∧
    (Processor.sampleAddDone.Registers.get .StackBase =
        Processor.sampleAdd.Registers.get .StackBase ∧
      ∀ e s'', (operation .sample).run Processor.sampleAddDone = .error e s'' →
        s''.Registers.get .StackBase = Processor.sampleAdd.Registers.get .StackBase) := by
  refine ⟨?run, .inl (.inl rfl), runs_keep_unreached_registers .sample ?run (.inl (.inl rfl))⟩
  exact .head (by rfl) (.refl _)

/-! ### `FER8`–`FER15` are never read -/

/-- `s₁` and `s₂` agree on the pointer, the memory and every register but `FER8`–`FER15`. -/
def Processor.LowEquiv (s₁ s₂ : Processor) : Prop :=
  s₁.InstructionPointer = s₂.InstructionPointer ∧ s₁.Memory = s₂.Memory ∧
    ∀ r : RegisterName, ¬ r.IsUpperFullyExtended → s₁.Registers.get r = s₂.Registers.get r

namespace Processor.LowEquiv

variable {s₁ s₂ : Processor}

theorem symm (h : s₁.LowEquiv s₂) : s₂.LowEquiv s₁ :=
  ⟨h.1.symm, h.2.1.symm, fun r hr => (h.2.2 r hr).symm⟩

theorem advance (h : s₁.LowEquiv s₂) (n : Nat) : (s₁.advance n).LowEquiv (s₂.advance n) :=
  ⟨by simp only [Processor.advance_InstructionPointer, h.1], h.2.1, h.2.2⟩

theorem at_iff (h : s₁.LowEquiv s₂) (bs : List (BitVec 8)) : s₁.At bs ↔ s₂.At bs := by
  simp only [Processor.At, h.1, h.2.1]

theorem value_eq (h : s₁.LowEquiv s₂) (p : CpuSub) : p.value ci s₁ = p.value ci s₂ := by
  cases p with
  | register w i =>
    simp only [CpuSub.value]
    cases hr : selectRegister ci 8 w i with
    | none => rfl
    | some r => simp only [Option.map_some', h.2.2 r (selectRegister_eight_not_upper ci hr)]
  | constant => rfl

theorem memoryAddress_eq (h : s₁.LowEquiv s₂) (b o1 o2 : CpuSub) (r : BitVec 8) :
    memoryAddress ci s₁ b o1 o2 r = memoryAddress ci s₂ b o1 o2 r := by
  simp only [memoryAddress, h.value_eq ci]

theorem load_eq (h : s₁.LowEquiv s₂) (op : CpuOperand) : op.load ci s₁ = op.load ci s₂ := by
  cases op with
  | register w i =>
    simp only [CpuOperand.load]
    cases hr : selectRegister ci 8 w i with
    | none => rfl
    | some r => simp only [Option.map_some', h.2.2 r (selectRegister_eight_not_upper ci hr)]
  | constant => rfl
  | memory w b o1 o2 r =>
    simp only [CpuOperand.load, h.memoryAddress_eq ci, h.2.1]

/-- A store keeps two states that agree off `FER8`–`FER15` in agreement. -/
theorem store (h : s₁.LowEquiv s₂) (op : CpuOperand) (x : BitVec 64) {s₁' : Processor}
    (hs : op.store ci s₁ x = some s₁') :
    ∃ s₂', op.store ci s₂ x = some s₂' ∧ s₁'.LowEquiv s₂' := by
  cases op with
  | register w i =>
    obtain ⟨r, hr, rfl⟩ := Option.map_eq_some'.mp hs
    refine ⟨{ s₂ with Registers := s₂.Registers.set r x },
      by simp only [CpuOperand.store, hr, Option.map_some'], h.1, h.2.1, fun r' hr' => ?_⟩
    by_cases hne : r' = r
    · subst hne
      exact BitVec.eq_of_toNat_eq ((Registers.get_set_self _ _ _).trans
        (Registers.get_set_self _ _ _).symm)
    · simp only [Registers.get_set_of_ne _ _ hne, h.2.2 r' hr']
  | constant => cases hs
  | memory w b o1 o2 r =>
    simp only [CpuOperand.store] at hs ⊢
    split_ifs at hs ⊢
    obtain ⟨a, ha, rfl⟩ := Option.map_eq_some'.mp hs
    rw [h.memoryAddress_eq ci] at ha
    refine ⟨{ s₂ with Memory := s₂.Memory.write a (toBytesLE x.toNat (widthBits w / 8)) },
      by rw [ha, Option.map_some'], h.1, by rw [h.2.1], h.2.2⟩

end Processor.LowEquiv

/-- A step keeps two states that agree off `FER8`–`FER15` in agreement. -/
theorem Instruction.step_lowEquiv {s₁ s₂ s₁' : Processor} (h : s₁.LowEquiv s₂) {i : Instruction}
    (hs : i.step ci s₁ = some s₁') : ∃ s₂', i.step ci s₂ = some s₂' ∧ s₁'.LowEquiv s₂' := by
  cases i with
  | add w op1 op2 =>
    simp only [Instruction.step, Option.bind_eq_bind, Option.bind_eq_some] at hs ⊢
    obtain ⟨v₁, hl₁, v₂, hl₂, hst⟩ := hs
    have ha := h.advance (9 + op1.bytes.length + op2.bytes.length)
    obtain ⟨s₂', hst₂, hle⟩ := ha.store ci op1 _ hst
    exact ⟨s₂', ⟨v₁, (ha.load_eq ci op1).symm.trans hl₁, v₂, (ha.load_eq ci op2).symm.trans hl₂,
      hst₂⟩, hle⟩
  | nop | illegal =>
    cases hs
    exact ⟨_, rfl, h.advance 8⟩

theorem operation_lowEquiv {s₁ s₂ s₁' : Processor} (h : s₁.LowEquiv s₂)
    (hs : (operation ci).run s₁ = .ok () s₁') :
    ∃ s₂', (operation ci).run s₂ = .ok () s₂' ∧ s₁'.LowEquiv s₂' := by
  obtain ⟨i, hat, hi⟩ := step_of_operation ci hs
  obtain ⟨s₂', hi₂, hle⟩ := Instruction.step_lowEquiv ci h hi
  exact ⟨s₂', operation_of_step ci ((h.at_iff _).mp hat) hi₂, hle⟩

theorem operation_throws_lowEquiv {s₁ s₂ : Processor} (h : s₁.LowEquiv s₂) :
    (∃ e s, (operation ci).run s₁ = .error e s) ↔ ∃ e s, (operation ci).run s₂ = .error e s := by
  have throws : ∀ {a b : Processor}, a.LowEquiv b → (∃ e s, (operation ci).run a = .error e s) →
      ∃ e s, (operation ci).run b = .error e s := by
    rintro a b hab ⟨e, s, he⟩
    cases hb : (operation ci).run b with
    | ok u s' =>
      obtain ⟨a', ha', -⟩ := operation_lowEquiv ci hab.symm hb
      rw [ha'] at he
      cases he
    | error e' s' => exact ⟨e', s', rfl⟩
  exact ⟨throws h, throws h.symm⟩

/-- What `FER8`–`FER15` hold never flows anywhere.  From two states that agree on the pointer,
the memory and every other register, each run of the one is matched by a run of the other that
ends in agreement, and the step after it throws from the one exactly when it throws from the
other. -/
theorem runs_ignore_upper_fully_extended {s₁ s₂ s₁' : Processor} (h : s₁.LowEquiv s₂)
    (hrun : Runs ci s₁ s₁') :
    ∃ s₂', Runs ci s₂ s₂' ∧ s₁'.LowEquiv s₂' ∧
      ((∃ e s, (operation ci).run s₁' = .error e s) ↔
        ∃ e s, (operation ci).run s₂' = .error e s) := by
  induction hrun generalizing s₂ with
  | refl s => exact ⟨s₂, .refl _, h, operation_throws_lowEquiv ci h⟩
  | head step _ ih =>
    obtain ⟨t₂, hstep₂, ht⟩ := operation_lowEquiv ci h step
    obtain ⟨s₂', hrun₂, hle, hthrows⟩ := ih ht
    exact ⟨s₂', .head hstep₂ hrun₂, hle, hthrows⟩

/-- `Processor.sampleAdd` with `7` in `FER8`. -/
def Processor.sampleAddFerEight : Processor :=
  { Processor.sampleAdd with
    Registers := Processor.sampleAdd.Registers.set (.FullyExtendedRegister 8) 7 }

/-- Storing 7 in `FER8` before `ADD .64bit %FER0, $(5)` changes nothing else the run does. -/
theorem runs_ignore_upper_fully_extended_add :
    Processor.sampleAdd.LowEquiv Processor.sampleAddFerEight ∧
    Runs .sample Processor.sampleAdd Processor.sampleAddDone ∧
    ∃ s₂', Runs .sample Processor.sampleAddFerEight s₂' ∧ Processor.sampleAddDone.LowEquiv s₂' ∧
      ((∃ e s, (operation .sample).run Processor.sampleAddDone = .error e s) ↔
        ∃ e s, (operation .sample).run s₂' = .error e s) := by
  have hlow : Processor.sampleAdd.LowEquiv Processor.sampleAddFerEight :=
    ⟨rfl, rfl, fun r hr => (Registers.get_set_of_ne _ _ fun h => hr ⟨8, le_rfl, h⟩).symm⟩
  have hrun : Runs .sample Processor.sampleAdd Processor.sampleAddDone := .head (by rfl) (.refl _)
  exact ⟨hlow, hrun, runs_ignore_upper_fully_extended .sample hlow hrun⟩

/-! ### The debug log -/

/-- The runs of the processor with its log: the states and outputs reached by steps of the
logged `operation` that return. -/
inductive Logged.Runs : Processor × List String → Processor × List String → Prop
  | refl (c : Processor × List String) : Logged.Runs c c
  | head {c c₁ c' : Processor × List String} (step : (Logged.operation ci).run c = .ok () c₁)
    (rest : Logged.Runs c₁ c') : Logged.Runs c c'

/-- `Executes s is s'`: the instructions `is`, each at the instruction pointer when its turn
comes, step `s` to `s'`. -/
inductive Executes : Processor → List Instruction → Processor → Prop
  | nil (s : Processor) : Executes s [] s
  | cons {s s₁ s' : Processor} {i : Instruction} {is : List Instruction} (hat : s.At i.bytes)
    (step : i.step ci s = some s₁) (rest : Executes s₁ is s') : Executes s (i :: is) s'

/-- The log is the trace of the run: every run of the processor prints, after what was there,
the lines of the instructions it executed, in order, and every sequence of instructions the
processor can execute is a run that prints their lines. -/
theorem Logged.runs_print_executed {c c' : Processor × List String} :
    Logged.Runs ci c c' ↔
      ∃ is, Executes ci c.1 is c'.1 ∧ c'.2 = c.2 ++ is.flatMap Instruction.logLine := by
  constructor
  · intro h
    induction h with
    | refl c => exact ⟨[], .nil _, by simp⟩
    | head step _ ih =>
      obtain ⟨i, hat, hi, hout⟩ := Logged.step_of_operation ci step
      obtain ⟨is, hex, hout'⟩ := ih
      refine ⟨i :: is, .cons hat hi hex, ?_⟩
      rw [hout', hout, List.flatMap_cons, List.append_assoc]
  · obtain ⟨s, out⟩ := c
    obtain ⟨s', out'⟩ := c'
    rintro ⟨is, hex, rfl⟩
    dsimp only at hex ⊢
    induction hex generalizing out with
    | nil s => simpa using Logged.Runs.refl (s, out)
    | cons hat hi _ ih =>
      refine .head (Logged.operation_of_step ci hat hi out) ?_
      simpa [List.append_assoc] using ih (out ++ _)

theorem Logged.Runs.erase {c c' : Processor × List String} (h : Logged.Runs ci c c') :
    Sysdarft.Runs ci c.1 c'.1 := by
  induction h with
  | refl c => exact .refl _
  | @head c c₁ _ step _ ih =>
    have h := Logged.operation_erases ci c.1 c.2
    rw [Prod.mk.eta, step] at h
    exact .head h.symm ih

/-- The processor's runs are the logged runs with their output erased: from any output already
printed, every run of `operation` is one of the logged processor, and conversely. -/
theorem Logged.runs_erase {s s' : Processor} (out : List String) :
    Sysdarft.Runs ci s s' ↔ ∃ out', Logged.Runs ci (s, out) (s', out') := by
  refine ⟨fun h => ?_, fun ⟨_, h⟩ => h.erase⟩
  induction h generalizing out with
  | refl s => exact ⟨out, .refl _⟩
  | head step _ ih =>
    obtain ⟨out₁, hstep⟩ :=
      Logged.erase_eq_ok.mp ((Logged.operation_erases ci _ out).trans step)
    obtain ⟨out', hrest⟩ := ih out₁
    exact ⟨out', .head hstep hrest⟩

/-- A step that throws changes no register and no memory byte, and prints nothing or the line
of an `ADD` whose step is undefined: `add` prints its line once both operands are decoded and
before it reads them, so the log names an `ADD` that did not take place. -/
theorem Logged.operation_error {s s'' : Processor} {out out'' : List String}
    {e : IllegalInstruction} (h : (Logged.operation ci).run (s, out) = .error e (s'', out'')) :
    s''.Registers = s.Registers ∧ s''.Memory = s.Memory ∧
      (out'' = out ∨ ∃ w op1 op2, s.At (Instruction.add w op1 op2).bytes ∧
        (Instruction.add w op1 op2).step ci s = none ∧
        out'' = out ++ (Instruction.add w op1 op2).logLine) := by
  have herr := Logged.operation_erases ci s out
  rw [h] at herr
  replace herr : (Sysdarft.operation ci).run s = .error e s'' := herr.symm
  obtain ⟨hreg, hmem⟩ := operation_keepsOnError ci s e s'' herr
  refine ⟨hreg, hmem, ?_⟩
  have hat := Processor.at_opcode s
  simp only [Logged.operation] at h
  rw [Exec.quiet_bind_of_ok (pop_sixty_four_run s)] at h
  split_ifs at h with h₀ h₁
  · cases h
  · simp only [Logged.add, pop_target] at h
    rw [Exec.quiet_bind_of_ok (pop_eight_run _)] at h
    rcases Exec.quiet_bind_eq_error h with ⟨-, rfl : out'' = out⟩ | ⟨t₁, s₁, hc₁, h⟩
    · exact .inl rfl
    rcases Exec.quiet_bind_eq_error h with ⟨-, rfl : out'' = out⟩ | ⟨t₂, s₂, hc₂, h⟩
    · exact .inl rfl
    rw [debug_log_bind_run] at h
    obtain ⟨-, rfl : out'' = _⟩ := Exec.quiet_eq_error.mp h
    obtain ⟨op1, -, hat₁, rfl, -, hlit₁⟩ := Target.read_of_construct ci hc₁
    obtain ⟨op2, -, hat₂, rfl, -, hlit₂⟩ := Target.read_of_construct ci hc₂
    have hadd := Instruction.at_add (by rwa [h₁] at hat) hat₁ hat₂
    refine .inr ⟨_, op1, op2, hadd, Option.eq_none_iff_forall_not_mem.mpr fun s' hs => ?_,
      by rw [Instruction.logLine, hlit₁, hlit₂]⟩
    rw [Sysdarft.operation_of_step ci hadd hs] at herr
    cases herr
  · cases (Exec.quiet_eq_error.mp h).1

/-- The processor loaded with `ADD .64bit %FER8, $(1)`. -/
def Processor.sampleAddToFerEight : Processor :=
  Processor.load (toBytesLE 1 8 ++ [0x64, 0x01, 0x64, 0x08, 0x02, 0x64] ++ toBytesLE 1 8)

/-- `ADD .64bit %FER8, $(1)`: `FER8` is write-only, so the step throws, after its line. -/
theorem Logged.operation_error_fer_eight :
    ∃ e s'', (Logged.operation .sample).run (Processor.sampleAddToFerEight, []) =
        .error e (s'', ["[PROCESSOR]:\tADD <%FER8>, <$(1)>\n"]) ∧
      s''.Registers = Processor.sampleAddToFerEight.Registers ∧
      s''.Memory = Processor.sampleAddToFerEight.Memory ∧
      (["[PROCESSOR]:\tADD <%FER8>, <$(1)>\n"] = [] ∨ ∃ w op1 op2,
        Processor.sampleAddToFerEight.At (Instruction.add w op1 op2).bytes ∧
        (Instruction.add w op1 op2).step .sample Processor.sampleAddToFerEight = none ∧
        ["[PROCESSOR]:\tADD <%FER8>, <$(1)>\n"] = [] ++ (Instruction.add w op1 op2).logLine) :=
  match (⟨_, _, rfl⟩ : ∃ e s'', (Logged.operation .sample).run
      (Processor.sampleAddToFerEight, []) =
        .error e (s'', ["[PROCESSOR]:\tADD <%FER8>, <$(1)>\n"])) with
  | ⟨e, s'', h⟩ => ⟨e, s'', h, Logged.operation_error .sample h⟩

end Sysdarft
