import Sysdarft.Processor.Decoder
import Sysdarft.Assembler.Image

/-!
# Agreement — the processor's decoder on the assembler's bytes

`encode.target.cpp` and the processor's `Target::Target` read and write the same three operand
prefixes, but not the same layout after them.  `ConstructOutcome` says what the constructor
does on the bytes of each operand the encoder can write:

* a register `01 tag index` is read as written, three bytes, as the register of that tag and
  index;
* a constant `02 sign value` is refused: the encoder's sign byte, `00` or `01`, stands where
  `do_setup_constant_info` asserts `0x64`;
* a memory operand `03 ratio b o1 o2` is refused when a sub-operand is a constant, for the same
  reason; with three registers it is read with the encoder's ratio byte as its `TargetWidth`
  and with the byte after the operand as its ratio, so it takes one byte more than the encoder
  wrote.

* `construct_wire`: from any state where the bytes of an encodable operand lie at the
  instruction pointer, the constructor does what `ConstructOutcome` says.
* `encode_target_construct`: so does it on the bytes of any text `encode_target` accepts,
  followed by anything.
* `construct_encoded_constant_refused`: `$(5)` is accepted by the encoder and refused by the
  processor.
-/

namespace Sysdarft

variable (ci : ControlRegisterIndex)

/-- The 64-bit register a `FER` operand of index below 8 names. -/
def WireRegister.fer (r : WireRegister) : RegisterName :=
  .FullyExtendedRegister (Fin.ofNat r.index.toNat)

/-- The constructor throws from `s`, and the throw leaves every register and memory byte. -/
def Refuses (s : Processor) : Prop :=
  ∃ e s', (Target.construct ci).run s = .error e s' ∧ s'.Registers = s.Registers ∧
    s'.Memory = s.Memory

/-- What `Target::Target` does from `s` when the bytes of an encodable operand lie at the
instruction pointer. -/
def ConstructOutcome (s : Processor) : WireTarget → Prop
  | .register r => ∃ t, (Target.construct ci).run s = .ok t (s.advance 3) ∧
      t.TargetType = .TypeRegister ∧ t.TargetWidth = r.cls.tag ∧ t.RegisterIndex = r.index
  | .memory ratio (.register b) (.register o1) (.register o2) =>
      ∃ t, (Target.construct ci).run s = .ok t (s.advance 12) ∧ t.TargetType = .TypeMemory ∧
        t.TargetWidth = ratio.code ∧
        t.MemoryAddress = (s.Registers.get b.fer + s.Registers.get o1.fer + s.Registers.get o2.fer) *
          (s.Memory (s.InstructionPointer + 11)).setWidth 64
  | _ => Refuses ci s

/-! ### Sub-operands -/

theorem selectRegister_fer {r : WireRegister} (hr : r.Encodable) :
    selectRegister ci 8 0x64 r.index = some r.fer := by
  have hk : r.index.toNat < 8 := hr
  have hfin : (Fin.ofNat r.index.toNat : Fin 16).val = r.index.toNat := Nat.mod_eq_of_lt (by omega)
  refine selectRegister_tag ci ?_ (by simp [WireRegister.fer, RegisterName.IsBase]) ?_
  · simp only [WireRegister.fer, RegisterName.tag, hfin, ofNat_toNat_eight]
  · rintro j ⟨⟩
    omega

theorem refuses_of_error {s s' : Processor} {e : IllegalInstruction}
    (h : (Target.construct ci).run s = .error e s') : Refuses ci s := by
  have hframe := Target.construct_readsOnly ci s
  rw [h] at hframe
  exact ⟨e, s', h, hframe⟩

/-- A 64-bit register sub-operand is read as its register's content. -/
theorem memory_sub_operand_fer (t : Target) (line : Nat) (name : String) {s : Processor}
    {r : WireRegister} (hr : (SubOperand.register r).Encodable) {rest : List (BitVec 8)}
    (h : s.At ((SubOperand.register r).bytes ++ rest)) :
    ∃ t', (t.memory_sub_operand ci line name).run s =
      .ok (t', s.Registers.get r.fer) (s.advance 3) := by
  obtain ⟨hcls, hr⟩ := hr
  simp only [SubOperand.bytes, WireRegister.payload, hcls, RegisterClass.tag, List.cons_append,
    List.nil_append] at h
  exact t.memory_sub_operand_register_at ci line name h (selectRegister_fer ci hr)

/-- A constant sub-operand the encoder wrote is refused. -/
theorem memory_sub_operand_encoded_constant (t : Target) (line : Nat) (name : String)
    {s : Processor} {c : WireConstant} (hc : c.Encodable) {rest : List (BitVec 8)}
    (h : s.At ((SubOperand.constant c).bytes ++ rest)) :
    ∃ e s', (t.memory_sub_operand ci line name).run s = .error e s' := by
  have hsign : c.sign ≠ 0x64 := by rcases hc with h | ⟨h, -⟩ <;> rw [h] <;> decide
  simp only [SubOperand.bytes, WireConstant.payload, List.cons_append] at h
  exact t.memory_sub_operand_constant_at_error ci line name h hsign

theorem at_of_append {s : Processor} {p : SubOperand} {rest : List (BitVec 8)}
    (h : s.At (p.bytes ++ rest)) : (s.advance p.bytes.length).At rest :=
  (Processor.at_append.mp h).2

/-! ### Operands -/

/-- A memory operand with a constant among its sub-operands is refused. -/
theorem refuses_memory {s : Processor} {ratio : Ratio} {base off1 off2 : SubOperand}
    (hb : base.Encodable) (h₁ : off1.Encodable) (h₂ : off2.Encodable)
    (hat : s.At (WireTarget.memory ratio base off1 off2).bytes)
    (hconst : ∀ b o1 o2, ¬ (base = .register b ∧ off1 = .register o1 ∧ off2 = .register o2)) :
    Refuses ci s := by
  simp only [WireTarget.bytes, List.append_assoc] at hat
  obtain ⟨-, hw⟩ := Processor.at_cons.mp hat
  have hsub := (Processor.at_cons.mp hw).2
  have herror : ∃ e s', (Target.unset.do_setup_memory_info ci).run (s.advance 1) = .error e s' := by
    refine Target.unset.do_setup_memory_info_error ci hw ?_
    rcases base with b | cb
    · obtain ⟨t₁, hrun₁⟩ := memory_sub_operand_fer ci _ _ _ hb hsub
      have hsub₁ := at_of_append hsub
      refine .inr ⟨t₁, _, _, hrun₁, ?_⟩
      rcases off1 with o1 | c1
      · obtain ⟨t₂, hrun₂⟩ := memory_sub_operand_fer ci _ _ _ h₁ hsub₁
        have hsub₂ := at_of_append hsub₁
        rcases off2 with o2 | c2
        · exact absurd ⟨rfl, rfl, rfl⟩ (hconst b o1 o2)
        · exact .inr ⟨t₂, _, _, hrun₂, @memory_sub_operand_encoded_constant ci _ _ _ _ _ h₂ []
            (by rwa [List.append_nil])⟩
      · exact .inl (memory_sub_operand_encoded_constant ci _ _ _ h₁ hsub₁)
    · exact .inl (memory_sub_operand_encoded_constant ci _ _ _ hb hsub)
  obtain ⟨e, s', herror⟩ := herror
  exact refuses_of_error ci (by rw [Target.construct_memory ci hat, run_bind_of_error herror])

/-- A memory operand of three 64-bit registers is read with its ratio byte as the width and the
byte after it as the ratio. -/
theorem construct_memory_registers {s : Processor} {ratio : Ratio} {b o1 o2 : WireRegister}
    (hb : (SubOperand.register b).Encodable) (h₁ : (SubOperand.register o1).Encodable)
    (h₂ : (SubOperand.register o2).Encodable)
    (hat : s.At (WireTarget.memory ratio (.register b) (.register o1) (.register o2)).bytes) :
    ConstructOutcome ci s (.memory ratio (.register b) (.register o1) (.register o2)) := by
  simp only [WireTarget.bytes, List.append_assoc] at hat
  obtain ⟨-, hw⟩ := Processor.at_cons.mp hat
  have hsub := (Processor.at_cons.mp hw).2
  obtain ⟨t₁, hrun₁⟩ := memory_sub_operand_fer ci Target.unset 47 "PrefixBaseAddress" hb hsub
  have hsub₁ := at_of_append hsub
  obtain ⟨t₂, hrun₂⟩ := memory_sub_operand_fer ci t₁ 54 "PrefixOffset1" h₁ hsub₁
  have hsub₂ := at_of_append hsub₁
  obtain ⟨t₃, hrun₃⟩ := @memory_sub_operand_fer ci t₂ 61 "PrefixOffset2" _ _ h₂ []
    (by rwa [List.append_nil])
  obtain ⟨literal, hmem⟩ := Target.unset.do_setup_memory_info_at ci hw hrun₁ hrun₂ hrun₃ rfl
  simp only [SubOperand.bytes, WireRegister.payload, List.length_cons, List.length_nil,
    Processor.advance_advance, Processor.advance_Registers, Processor.advance_Memory,
    Processor.advance_InstructionPointer] at hmem
  constructor
  refine ⟨?_, ?_, ?_, ?_⟩
  · rw [Target.construct_memory ci hat, run_bind_of_ok hmem]
    rfl
  · rfl
  · rfl
  · rfl

/-- From any state where the bytes of an operand the encoder can write lie at the instruction
pointer, the processor's constructor does what `ConstructOutcome` says. -/
theorem construct_wire {s : Processor} {op : WireTarget} (hop : op.Encodable)
    (hat : s.At op.bytes) : ConstructOutcome ci s op := by
  cases op with
  | register r =>
    simp only [WireTarget.bytes, WireRegister.payload] at hat
    exact Target.construct_register_at ci hat (by cases r.cls <;> simp [RegisterClass.tag])
  | constant c =>
    have hsign : c.sign ≠ 0x64 := by rcases hop with h | ⟨h, -⟩ <;> rw [h] <;> decide
    simp only [WireTarget.bytes, WireConstant.payload] at hat
    obtain ⟨e, s', h⟩ := Target.construct_constant_at_error ci hat hsign
    exact refuses_of_error ci h
  | memory ratio base off1 off2 =>
    obtain ⟨hb, h₁, h₂⟩ := hop
    rcases base with b | cb <;> rcases off1 with o1 | c1 <;> rcases off2 with o2 | c2
    case register.register.register => exact construct_memory_registers ci hb h₁ h₂ hat
    all_goals exact refuses_memory ci hb h₁ h₂ hat (by simp)

/-- The processor's operand decoder on the bytes of any text `encode_target` accepts, followed by
anything: registers are read as written, constants are refused, and memory operands are refused
or read with their ratio byte as the width and the byte after them as the ratio. -/
theorem encode_target_construct (T : String) (bs S : List (BitVec 8)) (s : Processor)
    (h : (encode_target T).run [] = .ok () bs) (hat : s.At (bs ++ S)) :
    ∃ op : WireTarget, op.Encodable ∧ bs = op.bytes ∧ ConstructOutcome ci s op := by
  obtain ⟨op, hop, rfl⟩ := encode_target_encodable h
  exact ⟨op, hop, rfl, construct_wire ci hop (Processor.at_append.mp hat).1⟩

theorem encode_target_construct_fer :
    (encode_target "%FER3").run [] = .ok () [0x01, 0x64, 0x03] ∧
      (Processor.load [0x01, 0x64, 0x03]).At ([0x01, 0x64, 0x03] ++ []) ∧
      ∃ op : WireTarget, op.Encodable ∧ [0x01, 0x64, 0x03] = op.bytes ∧
        ConstructOutcome .sample (Processor.load [0x01, 0x64, 0x03]) op :=
  ⟨by rfl, by rfl, encode_target_construct .sample "%FER3" _ [] _ (by rfl) (by rfl)⟩

/-- `$(5)` is accepted by the encoder, and the processor refuses its bytes. -/
theorem construct_encoded_constant_refused :
    (encode_target "$(5)").run [] = .ok () (CONSTANT_PREFIX :: 0x00 :: toBytesLE 5 8) ∧
      ∃ e s', (Target.construct .sample).run
        (Processor.load (CONSTANT_PREFIX :: 0x00 :: toBytesLE 5 8)) = .error e s' :=
  ⟨by rfl, _, _, rfl⟩

end Sysdarft
