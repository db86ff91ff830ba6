import Sysdarft.Processor.Decoder

/-!
# Processor — the operand grammar of the decoder

`Target::Target` reads one operand in the processor's own layout.  `CpuOperand` is that layout
as data:

* a register, `01`, a width tag `do_setup_register_info` accepts and an index;
* a constant, `02 64` and eight little-endian value bytes;
* a memory operand, `03`, a width byte, three sub-operands that are registers or constants, and
  a ratio byte.

A sub-operand has a value only when `do_get_register` finds its register (`CpuSub.value`); a
memory operand is accepted when all three have one.

* `CpuOperand.eq_of_at`: the layout is a prefix code, so the operand at the instruction pointer
  is unique.
* `construct_cpu`: on the bytes of an accepted operand, followed by anything, the constructor
  returns the target the operand denotes and advances past exactly its bytes
  (`Target.construct_literal_of_accepted` adds the target's text).
* `cpu_of_construct`: whenever the constructor returns, it has read the bytes of an accepted
  operand and no more, and returned the target that operand denotes
  (`Target.read_of_construct` adds the target's text).

The decoder reads its sub-operands' registers while it decodes; since decoding writes nothing
(`Target.construct_readsOnly`), they are the registers of the state it starts from.
-/

namespace Sysdarft

variable (ci : ControlRegisterIndex)

/-- A sub-operand of a memory operand in the processor's layout. -/
inductive CpuSub
  | register (width index : BitVec 8)
  | constant (value : BitVec 64)
  deriving DecidableEq, Repr

/-- An operand in the processor's layout. -/
inductive CpuOperand
  | register (width index : BitVec 8)
  | constant (value : BitVec 64)
  | memory (width : BitVec 8) (base off1 off2 : CpuSub) (ratio : BitVec 8)
  deriving DecidableEq, Repr

def CpuSub.bytes : CpuSub → List (BitVec 8)
  | .register w i => [REGISTER_PREFIX, w, i]
  | .constant v => CONSTANT_PREFIX :: 0x64 :: toBytesLE v.toNat 8

def CpuOperand.bytes : CpuOperand → List (BitVec 8)
  | .register w i => [REGISTER_PREFIX, w, i]
  | .constant v => CONSTANT_PREFIX :: 0x64 :: toBytesLE v.toNat 8
  | .memory w b o1 o2 r => MEMORY_PREFIX :: w :: (b.bytes ++ o1.bytes ++ o2.bytes ++ [r])

/-- The name `do_setup_register_info` writes before the index of a register of width tag `w`. -/
def literalPrefix (w : BitVec 8) : String :=
  if w = 0x08 then "%R" else if w = 0x16 then "%EXR" else if w = 0x32 then "%HER"
  else if w = 0x64 then "%FER" else "%XMM"

/-- The text the decoder leaves in `literal` for a sub-operand. -/
def CpuSub.literal : CpuSub → String
  | .register w i => literalPrefix w ++ toString i.toNat
  | .constant v => "$(" ++ toString v.toNat ++ ")"

/-- The text the decoder leaves in `literal` for an operand, which `Target::Target` then puts
between angle brackets: the ratio byte is written in decimal, and the memory width not at all. -/
def CpuOperand.literal : CpuOperand → String
  | .register w i => literalPrefix w ++ toString i.toNat
  | .constant v => "$(" ++ toString v.toNat ++ ")"
  | .memory _ b o1 o2 r =>
    "*" ++ toString r.toNat ++ "(" ++ b.literal ++ ", " ++ o1.literal ++ ", " ++ o2.literal ++ ")"

/-- The width tags `do_setup_register_info` accepts. -/
def RegisterWidth (w : BitVec 8) : Prop :=
  w = 0x08 ∨ w = 0x16 ∨ w = 0x32 ∨ w = 0x64 ∨ w = 0xFC

/-- A sub-operand's value in `s`: the content of the register the reader's table selects, or
the constant; `none` where `do_get_register` throws. -/
def CpuSub.value (s : Processor) : CpuSub → Option (BitVec 64)
  | .register w i => (selectRegister ci 8 w i).map s.Registers.get
  | .constant v => some v

/-- The operand is one the decoder reads from `s`. -/
def CpuOperand.Accepted (s : Processor) : CpuOperand → Prop
  | .register w _ => RegisterWidth w
  | .constant _ => True
  | .memory _ b o1 o2 _ => (b.value ci s).isSome ∧ (o1.value ci s).isSome ∧ (o2.value ci s).isSome

/-- `t` is the target the operand denotes in `s`. -/
def CpuOperand.Denotes (s : Processor) (t : Target) : CpuOperand → Prop
  | .register w i => t.TargetType = .TypeRegister ∧ t.TargetWidth = w ∧ t.RegisterIndex = i
  | .constant v => t.TargetType = .TypeConstant ∧ t.ConstantValue = v
  | .memory w b o1 o2 r => ∃ vb v1 v2, b.value ci s = some vb ∧ o1.value ci s = some v1 ∧
      o2.value ci s = some v2 ∧ t.TargetType = .TypeMemory ∧ t.TargetWidth = w ∧
      t.MemoryAddress = (vb + v1 + v2) * r.setWidth 64

theorem CpuSub.value_advance (p : CpuSub) (s : Processor) (n : Nat) :
    p.value ci (s.advance n) = p.value ci s := by
  cases p <;> rfl

/-! ### Reading the instruction stream -/

theorem pop_eight_run (s : Processor) :
    (pop 8).run s = .ok (s.Memory s.InstructionPointer) (s.advance 1) :=
  @pop_eight s _ [] rfl

theorem pop_sixty_four_run (s : Processor) :
    (pop 64).run s = .ok (BitVec.ofNat 64 (ofBytesLE (s.Memory.read s.InstructionPointer 8)))
      (s.advance 8) := rfl

theorem Processor.at_read (s : Processor) (n : Nat) : s.At (s.Memory.read s.InstructionPointer n) := by
  rw [Processor.At, Memory.length_read]

/-- The eight bytes `pop<64>` took are those of the value it returned. -/
theorem toBytesLE_read_eight (s : Processor) :
    toBytesLE (BitVec.ofNat 64 (ofBytesLE (s.Memory.read s.InstructionPointer 8))).toNat 8 =
      s.Memory.read s.InstructionPointer 8 := by
  have hlt := ofBytesLE_lt (s.Memory.read s.InstructionPointer 8)
  rw [Memory.length_read] at hlt
  rw [BitVec.toNat_ofNat, Nat.mod_eq_of_lt (by simpa using hlt)]
  conv_rhs => rw [← toBytesLE_ofBytesLE (s.Memory.read s.InstructionPointer 8), Memory.length_read]

theorem illegalInstructionAssert_eq_ok {c : Bool} {line : Nat} {function expression : String}
    {s s' : Processor} (h : (illegalInstructionAssert c line function expression).run s = .ok () s') :
    c = true ∧ s' = s := by
  unfold illegalInstructionAssert at h
  split at h
  · cases h
    exact ⟨by assumption, rfl⟩
  · cases h

/-! ### Registers and constants -/

theorem Target.do_setup_register_info_eq_ok {t t' : Target} {s s' : Processor}
    (h : t.do_setup_register_info.run s = .ok t' s') :
    ∃ w i, RegisterWidth w ∧ s.At [w, i] ∧ s' = s.advance 2 ∧
      t'.TargetType = .TypeRegister ∧ t'.TargetWidth = w ∧ t'.RegisterIndex = i ∧
      t'.literal = literalPrefix w ++ toString i.toNat := by
  simp only [Target.do_setup_register_info] at h
  rw [run_bind_of_ok (pop_eight_run s), run_bind_of_ok (pop_eight_run _),
    Processor.advance_advance] at h
  split_ifs at h with h₁ h₂ h₃ h₄ h₅ <;> cases h
  all_goals
    exact ⟨_, _, by simp [RegisterWidth, *], rfl, rfl, rfl, rfl, rfl, by simp [literalPrefix, *]⟩

theorem Target.do_setup_constant_info_eq_ok {t t' : Target} {s s' : Processor}
    (h : t.do_setup_constant_info.run s = .ok t' s') :
    ∃ v : BitVec 64, s.At (0x64 :: toBytesLE v.toNat 8) ∧ s' = s.advance 9 ∧
      t'.TargetType = .TypeConstant ∧ t'.ConstantValue = v ∧
      t'.literal = "$(" ++ toString v.toNat ++ ")" := by
  simp only [Target.do_setup_constant_info] at h
  rw [run_bind_of_ok (pop_eight_run s)] at h
  obtain ⟨_, s₁, h₁, h₂⟩ := run_bind_eq_ok h
  obtain ⟨htag, rfl⟩ := illegalInstructionAssert_eq_ok h₁
  rw [run_bind_of_ok (pop_sixty_four_run _)] at h₂
  cases h₂
  refine ⟨_, Processor.at_cons.mpr ⟨by simpa using htag, ?_⟩, by simp, rfl, rfl, rfl⟩
  rw [toBytesLE_read_eight]
  exact Processor.at_read _ 8

theorem Target.get_target_content_constant (t : Target) (ht : t.TargetType = .TypeConstant)
    (s : Processor) : (t.get_target_content_in_u64bit_t ci).run s = .ok t.ConstantValue s := by
  simp only [Target.get_target_content_in_u64bit_t, ht]
  rfl

/-! ### Sub-operands -/

/-- A sub-operand with a value is read as that value, and nothing after it is read. -/
theorem Target.memory_sub_operand_cpu (t : Target) (line : Nat) (name : String) {s : Processor}
    {p : CpuSub} {v : BitVec 64} (hv : p.value ci s = some v) {rest : List (BitVec 8)}
    (hat : s.At (p.bytes ++ rest)) :
    ∃ t', (t.memory_sub_operand ci line name).run s = .ok (t', v) (s.advance p.bytes.length) := by
  cases p with
  | register w i =>
    obtain ⟨r, hr, rfl⟩ := Option.map_eq_some'.mp hv
    exact t.memory_sub_operand_register_at ci line name hat hr
  | constant c =>
    cases hv
    obtain ⟨t', h⟩ := t.memory_sub_operand_constant_at ci line name (length_toBytesLE _ _) hat
    rw [ofBytesLE_toBytesLE, Nat.mod_eq_of_lt (show v.toNat < 256 ^ 8 from v.isLt),
      BitVec.ofNat_toNat, BitVec.setWidth_eq] at h
    exact ⟨t', h⟩

/-- Whenever a sub-operand is read, it was the bytes of one with a value, and that value is
what was read. -/
theorem Target.memory_sub_operand_eq_ok {t t' : Target} {line : Nat} {name : String}
    {s s' : Processor} {v : BitVec 64} (h : (t.memory_sub_operand ci line name).run s = .ok (t', v) s') :
    ∃ p : CpuSub, p.value ci s = some v ∧ s.At p.bytes ∧ s' = s.advance p.bytes.length ∧
      t'.literal = p.literal := by
  simp only [Target.memory_sub_operand] at h
  rw [run_bind_of_ok (pop_eight_run s)] at h
  obtain ⟨_, s₁, h₁, h₂⟩ := run_bind_eq_ok h
  obtain ⟨hpre, rfl⟩ := illegalInstructionAssert_eq_ok h₁
  obtain ⟨t₁, s₂, h₃, h₄⟩ := run_bind_eq_ok h₂
  obtain ⟨v₁, s₃, h₅, h₆⟩ := run_bind_eq_ok h₄
  cases h₆
  simp only [Target.decode_register_or_constant] at h₃
  split_ifs at h₃ with hreg
  · obtain ⟨w, i, -, hat, rfl, hty, hw, hi, hlit⟩ := Target.do_setup_register_info_eq_ok h₃
    rw [get_target_content_register ci _ hty] at h₅
    simp only [run_eq_apply, Target.do_get_register, hw, hi] at h₅
    split at h₅
    · rename_i r hr
      cases h₅
      refine ⟨.register w i, by simp [CpuSub.value, hr], ?_, by simp [CpuSub.bytes], hlit⟩
      exact Processor.at_cons.mpr ⟨hreg, hat⟩
    · cases h₅
  · obtain ⟨c, hat, rfl, hty, hval, hlit⟩ := Target.do_setup_constant_info_eq_ok h₃
    rw [Target.get_target_content_constant ci _ hty, hval] at h₅
    cases h₅
    have hconst : s.Memory s.InstructionPointer = CONSTANT_PREFIX := by simpa [hreg] using hpre
    exact ⟨.constant _, rfl, Processor.at_cons.mpr ⟨hconst, hat⟩, by simp [CpuSub.bytes], hlit⟩

/-! ### Memory operands -/

/-- Whenever `do_setup_memory_info` returns, it has read a width byte, three sub-operands with
values and a ratio byte, and its address is the sum of the values times the ratio byte. -/
theorem Target.do_setup_memory_info_eq_ok {t t' : Target} {s s' : Processor}
    (h : (t.do_setup_memory_info ci).run s = .ok t' s') :
    ∃ (w : BitVec 8) (b o1 o2 : CpuSub) (r : BitVec 8) (vb v1 v2 : BitVec 64),
      b.value ci s = some vb ∧ o1.value ci s = some v1 ∧ o2.value ci s = some v2 ∧
      s.At (w :: (b.bytes ++ (o1.bytes ++ (o2.bytes ++ [r])))) ∧
      s' = s.advance (b.bytes.length + o1.bytes.length + o2.bytes.length + 2) ∧
      t'.TargetType = .TypeMemory ∧ t'.TargetWidth = w ∧
      t'.MemoryAddress = (vb + v1 + v2) * r.setWidth 64 ∧
      t'.literal = (CpuOperand.memory w b o1 o2 r).literal := by
  simp only [Target.do_setup_memory_info] at h
  rw [run_bind_of_ok (pop_eight_run s)] at h
  obtain ⟨⟨t₁, vb⟩, s₁, h₁, h₂⟩ := run_bind_eq_ok h
  obtain ⟨b, hb, hat₁, rfl, hlb⟩ := Target.memory_sub_operand_eq_ok ci h₁
  obtain ⟨⟨t₂, v1⟩, s₂, h₃, h₄⟩ := run_bind_eq_ok h₂
  obtain ⟨o1, ho1, hat₂, rfl, hl1⟩ := Target.memory_sub_operand_eq_ok ci h₃
  obtain ⟨⟨t₃, v2⟩, s₃, h₅, h₆⟩ := run_bind_eq_ok h₄
  obtain ⟨o2, ho2, hat₃, rfl, hl2⟩ := Target.memory_sub_operand_eq_ok ci h₅
  rw [run_bind_of_ok (pop_eight_run _)] at h₆
  cases h₆
  simp only [CpuSub.value_advance] at hb ho1 ho2
  refine ⟨_, b, o1, o2, _, vb, v1, v2, hb, ho1, ho2, ?_, ?_, rfl, rfl, rfl, ?_⟩
  · exact Processor.at_cons.mpr ⟨rfl, Processor.at_append.mpr ⟨hat₁, Processor.at_append.mpr
      ⟨hat₂, Processor.at_append.mpr ⟨hat₃, rfl⟩⟩⟩⟩
  · simp only [Processor.advance_advance]
    congr 1
    omega
  · simp only [CpuOperand.literal, hlb, hl1, hl2]

/-! ### The layout is a prefix code -/

/-- Eight little-endian bytes in front of a list name one 64-bit value. -/
theorem toBytesLE_append_inj {a b : BitVec 64} {r r' : List (BitVec 8)}
    (h : toBytesLE a.toNat 8 ++ r = toBytesLE b.toNat 8 ++ r') : a = b ∧ r = r' := by
  obtain ⟨h₁, h₂⟩ := List.append_inj h (by simp)
  have := congrArg ofBytesLE h₁
  rw [ofBytesLE_toBytesLE, ofBytesLE_toBytesLE,
    Nat.mod_eq_of_lt (show a.toNat < 256 ^ 8 from a.isLt),
    Nat.mod_eq_of_lt (show b.toNat < 256 ^ 8 from b.isLt)] at this
  exact ⟨BitVec.eq_of_toNat_eq this, h₂⟩

theorem CpuSub.bytes_append_inj {p q : CpuSub} {r r' : List (BitVec 8)}
    (h : p.bytes ++ r = q.bytes ++ r') : p = q ∧ r = r' := by
  cases p <;> cases q <;> simp only [CpuSub.bytes, List.cons_append, List.nil_append,
    List.cons.injEq] at h
  case register.register =>
    obtain ⟨-, rfl, rfl, rfl⟩ := h
    exact ⟨rfl, rfl⟩
  case constant.constant =>
    obtain ⟨rfl, rfl⟩ := toBytesLE_append_inj h.2.2
    exact ⟨rfl, rfl⟩
  all_goals exact absurd h.1 (by decide)

theorem CpuOperand.bytes_append_inj {p q : CpuOperand} {r r' : List (BitVec 8)}
    (h : p.bytes ++ r = q.bytes ++ r') : p = q ∧ r = r' := by
  cases p <;> cases q <;> simp only [CpuOperand.bytes, List.cons_append, List.nil_append,
    List.append_assoc, List.singleton_append, List.cons.injEq] at h
  case register.register =>
    obtain ⟨-, rfl, rfl, rfl⟩ := h
    exact ⟨rfl, rfl⟩
  case constant.constant =>
    obtain ⟨rfl, rfl⟩ := toBytesLE_append_inj h.2.2
    exact ⟨rfl, rfl⟩
  case memory.memory =>
    obtain ⟨-, rfl, h₀⟩ := h
    obtain ⟨rfl, h₁⟩ := CpuSub.bytes_append_inj h₀
    obtain ⟨rfl, h₂⟩ := CpuSub.bytes_append_inj h₁
    obtain ⟨rfl, h₃⟩ := CpuSub.bytes_append_inj h₂
    obtain ⟨rfl, rfl⟩ := List.cons.inj h₃
    exact ⟨rfl, rfl⟩
  all_goals exact absurd h.1 (by decide)

/-- Two byte strings at the instruction pointer: the shorter begins the longer. -/
theorem Processor.at_prefix {s : Processor} {bs cs : List (BitVec 8)} (hb : s.At bs)
    (hc : s.At cs) (hl : bs.length ≤ cs.length) : ∃ r, cs = bs ++ r := by
  obtain ⟨k, hk⟩ := Nat.exists_eq_add_of_le hl
  unfold Processor.At at hb hc
  rw [hk, Memory.read_add, hb] at hc
  exact ⟨_, hc.symm⟩

/-- The operand at the instruction pointer is unique. -/
theorem CpuOperand.eq_of_at {s : Processor} {op op' : CpuOperand} (h : s.At op.bytes)
    (h' : s.At op'.bytes) : op = op' := by
  rcases le_total op.bytes.length op'.bytes.length with hl | hl
  · obtain ⟨r, hr⟩ := Processor.at_prefix h h' hl
    exact (CpuOperand.bytes_append_inj (show op.bytes ++ r = op'.bytes ++ [] by
      rw [List.append_nil, hr])).1
  · obtain ⟨r, hr⟩ := Processor.at_prefix h' h hl
    exact (CpuOperand.bytes_append_inj (show op.bytes ++ [] = op'.bytes ++ r by
      rw [List.append_nil, hr])).1

/-! ### Operands -/

theorem Target.construct_constant_at {s : Processor} {v : BitVec 64} {rest : List (BitVec 8)}
    (h : s.At (CONSTANT_PREFIX :: 0x64 :: toBytesLE v.toNat 8 ++ rest)) :
    ∃ t, (Target.construct ci).run s = .ok t (s.advance 10) ∧ t.TargetType = .TypeConstant ∧
      t.ConstantValue = v := by
  obtain ⟨literal, hcon⟩ :=
    Target.unset.do_setup_constant_info_at (length_toBytesLE _ _) (Processor.at_cons.mp h).2
  rw [ofBytesLE_toBytesLE, Nat.mod_eq_of_lt (show v.toNat < 256 ^ 8 from v.isLt),
    BitVec.ofNat_toNat, BitVec.setWidth_eq] at hcon
  simp only [Target.construct]
  rw [run_bind_of_ok (pop_eight h)]
  simp only [Target.do_decode_via_prefix, REGISTER_PREFIX, CONSTANT_PREFIX]
  rw [if_neg (by decide)]
  simp only [if_true]
  rw [run_bind_of_ok hcon, Processor.advance_advance]
  exact ⟨_, rfl, rfl, rfl⟩

theorem Target.construct_memory_at {s : Processor} {w r : BitVec 8} {b o1 o2 : CpuSub}
    (hop : (CpuOperand.memory w b o1 o2 r).Accepted ci s) {rest : List (BitVec 8)}
    (hat : s.At ((CpuOperand.memory w b o1 o2 r).bytes ++ rest)) :
    ∃ t, (Target.construct ci).run s =
        .ok t (s.advance (CpuOperand.memory w b o1 o2 r).bytes.length) ∧
      (CpuOperand.memory w b o1 o2 r).Denotes ci s t := by
  obtain ⟨hb, h₁, h₂⟩ := hop
  obtain ⟨vb, hvb⟩ := Option.isSome_iff_exists.mp hb
  obtain ⟨v1, hv1⟩ := Option.isSome_iff_exists.mp h₁
  obtain ⟨v2, hv2⟩ := Option.isSome_iff_exists.mp h₂
  simp only [CpuOperand.bytes, List.append_assoc, List.cons_append] at hat
  obtain ⟨-, hw⟩ := Processor.at_cons.mp hat
  have hsub := (Processor.at_cons.mp hw).2
  obtain ⟨t₁, hrun₁⟩ := Target.unset.memory_sub_operand_cpu ci 47 "PrefixBaseAddress"
    (by simpa only [CpuSub.value_advance] using hvb) hsub
  have hsub₁ := (Processor.at_append.mp hsub).2
  obtain ⟨t₂, hrun₂⟩ := t₁.memory_sub_operand_cpu ci 54 "PrefixOffset1"
    (by simpa only [CpuSub.value_advance] using hv1) hsub₁
  have hsub₂ := (Processor.at_append.mp hsub₁).2
  obtain ⟨t₃, hrun₃⟩ := t₂.memory_sub_operand_cpu ci 61 "PrefixOffset2"
    (by simpa only [CpuSub.value_advance] using hv2) hsub₂
  have hratio := (@Processor.at_cons _ r []).mpr
    ⟨(Processor.at_cons.mp (Processor.at_append.mp hsub₂).2).1, rfl⟩
  obtain ⟨literal, hmem⟩ := Target.unset.do_setup_memory_info_at ci hw hrun₁ hrun₂ hrun₃ hratio
  rw [Target.construct_memory ci hat, run_bind_of_ok hmem]
  refine ⟨_, congrArg₂ EStateM.Result.ok rfl ?_, vb, v1, v2, hvb, hv1, hv2, rfl, rfl, rfl⟩
  simp only [Processor.advance_advance, CpuOperand.bytes, List.length_cons, List.length_append,
    List.length_nil]
  congr 1
  omega

/-- Whenever the constructor returns, it has read an accepted operand and nothing after it, and
returned the target the operand denotes, with the operand's text between angle brackets. -/
theorem Target.read_of_construct {s s' : Processor} {t : Target}
    (h : (Target.construct ci).run s = .ok t s') :
    ∃ op : CpuOperand, op.Accepted ci s ∧ s.At op.bytes ∧ s' = s.advance op.bytes.length ∧
      op.Denotes ci s t ∧ t.literal = "<" ++ op.literal ++ ">" := by
  simp only [Target.construct] at h
  rw [run_bind_of_ok (pop_eight_run s)] at h
  obtain ⟨t₁, s₁, h₁, h₂⟩ := run_bind_eq_ok h
  cases h₂
  simp only [Target.do_decode_via_prefix] at h₁
  split_ifs at h₁ with hreg hcon hmem
  · obtain ⟨w, i, hw, hat, rfl, hty, hw', hi, hlit⟩ := Target.do_setup_register_info_eq_ok h₁
    refine ⟨.register w i, hw, Processor.at_cons.mpr ⟨hreg, hat⟩, ?_, ⟨hty, hw', hi⟩, ?_⟩
    · simp [CpuOperand.bytes]
    · simp [CpuOperand.literal, hlit]
  · obtain ⟨v, hat, rfl, hty, hv, hlit⟩ := Target.do_setup_constant_info_eq_ok h₁
    refine ⟨.constant v, trivial, Processor.at_cons.mpr ⟨hcon, hat⟩, ?_, ⟨hty, hv⟩, ?_⟩
    · simp [CpuOperand.bytes]
    · simp [CpuOperand.literal, hlit]
  · obtain ⟨w, b, o1, o2, r, vb, v1, v2, hb, ho1, ho2, hat, rfl, hty, hw, haddr, hlit⟩ :=
      Target.do_setup_memory_info_eq_ok ci h₁
    simp only [CpuSub.value_advance] at hb ho1 ho2
    refine ⟨.memory w b o1 o2 r, ⟨by simp [hb], by simp [ho1], by simp [ho2]⟩, ?_, ?_,
      ⟨vb, v1, v2, hb, ho1, ho2, hty, hw, haddr⟩, by rw [hlit]⟩
    · simpa [CpuOperand.bytes] using Processor.at_cons.mpr ⟨hmem, hat⟩
    · simp only [Processor.advance_advance, CpuOperand.bytes, List.length_cons, List.length_append,
        List.length_nil]
      congr 1
      omega
  · cases h₁

/-- The literal of the target the constructor returns on an operand's bytes is the operand's
text between angle brackets. -/
theorem Target.literal_of_construct {s s' : Processor} {t : Target} {op : CpuOperand}
    {rest : List (BitVec 8)} (h : (Target.construct ci).run s = .ok t s')
    (hat : s.At (op.bytes ++ rest)) : t.literal = "<" ++ op.literal ++ ">" := by
  obtain ⟨op', -, hat', -, -, hlit⟩ := Target.read_of_construct ci h
  rwa [CpuOperand.eq_of_at hat' (Processor.at_append.mp hat).1] at hlit

/-- On an accepted operand the constructor returns the target it denotes, with the operand's
text between angle brackets. -/
theorem Target.construct_literal_of_accepted {s : Processor} {op : CpuOperand}
    (hop : op.Accepted ci s) {rest : List (BitVec 8)} (hat : s.At (op.bytes ++ rest)) :
    ∃ t, (Target.construct ci).run s = .ok t (s.advance op.bytes.length) ∧ op.Denotes ci s t ∧
      t.literal = "<" ++ op.literal ++ ">" := by
  obtain ⟨t, hc, hd⟩ : ∃ t, (Target.construct ci).run s = .ok t (s.advance op.bytes.length) ∧
      op.Denotes ci s t := by
    cases op with
    | register w i => exact Target.construct_register_at ci hat hop
    | constant v => exact Target.construct_constant_at ci hat
    | memory w b o1 o2 r => exact Target.construct_memory_at ci hop hat
  exact ⟨t, hc, hd, Target.literal_of_construct ci hc hat⟩

/-- On the bytes of an operand the decoder accepts, followed by anything, the constructor returns
the target the operand denotes and advances past exactly its bytes. -/
theorem construct_cpu {s : Processor} {op : CpuOperand} (hop : op.Accepted ci s)
    {rest : List (BitVec 8)} (hat : s.At (op.bytes ++ rest)) :
    ∃ t, (Target.construct ci).run s = .ok t (s.advance op.bytes.length) ∧ op.Denotes ci s t :=
  let ⟨t, hc, hd, _⟩ := Target.construct_literal_of_accepted ci hop hat
  ⟨t, hc, hd⟩

/-- The memory operand `*1(%FER0, $(4), $(0))` of width `0x64`. -/
def CpuOperand.sampleMemory : CpuOperand :=
  .memory 0x64 (.register 0x64 0) (.constant 4) (.constant 0) 1

/-- The processor loaded with `CpuOperand.sampleMemory` alone. -/
def Processor.sampleMemory : Processor := Processor.load CpuOperand.sampleMemory.bytes

theorem construct_cpu_memory :
    CpuOperand.sampleMemory.Accepted .sample Processor.sampleMemory ∧
      Processor.sampleMemory.At (CpuOperand.sampleMemory.bytes ++ []) ∧
      ∃ t, (Target.construct .sample).run Processor.sampleMemory =
          .ok t (Processor.sampleMemory.advance CpuOperand.sampleMemory.bytes.length) ∧
        CpuOperand.sampleMemory.Denotes .sample Processor.sampleMemory t :=
  ⟨⟨rfl, rfl, rfl⟩, rfl, @construct_cpu .sample _ _ ⟨rfl, rfl, rfl⟩ [] rfl⟩

/-- Whenever the constructor returns, it has read the bytes of an operand the decoder accepts,
and nothing after them, and returned the target that operand denotes. -/
theorem cpu_of_construct {s s' : Processor} {t : Target}
    (h : (Target.construct ci).run s = .ok t s') :
    ∃ op : CpuOperand, op.Accepted ci s ∧ s.At op.bytes ∧ s' = s.advance op.bytes.length ∧
      op.Denotes ci s t :=
  let ⟨op, hop, hat, hs, hd, _⟩ := Target.read_of_construct ci h
  ⟨op, hop, hat, hs, hd⟩

/-- The constructor's result on the bytes of `CpuOperand.sampleMemory`. -/
theorem cpu_of_construct_memory :
    ∃ op : CpuOperand, op.Accepted .sample Processor.sampleMemory ∧
      Processor.sampleMemory.At op.bytes ∧
      Processor.sampleMemory.advance 26 = Processor.sampleMemory.advance op.bytes.length ∧
      op.Denotes .sample Processor.sampleMemory
        ⟨.TypeMemory, 0x64, 0, 0, 4, "<*1(%FER0, $(4), $(0))>"⟩ :=
  cpu_of_construct .sample rfl

end Sysdarft
