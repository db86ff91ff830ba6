import Sysdarft.Word
import Sysdarft.Assembler.Numeral

/-!
# Assembler — operands on the wire

The operands `encode.target.cpp` writes and reads, as data: `WireTarget` is a register, a
constant, or a memory operand with a ratio and three register-or-constant sub-operands.  Each
has the bytes `encode_target` appends for it (`WireTarget.bytes`) and the strings `decode`
appends to its output for it (`WireTarget.text`).

`WireTarget.Encodable` carves out the operands the encoder can produce: register indices are
below 8 (`register_pattern` has `[0-7]`), the registers inside a memory operand are `FER`s, and
a constant's sign byte is `0x00`, or `0x01` with a value that is negative as a signed 64-bit
integer.  The disassembler reads every `WireTarget`, encodable or not.
-/

namespace Sysdarft

/-- The register classes, by the second character of their name. -/
inductive RegisterClass
  | R
  | EXR
  | HER
  | FER
  deriving DecidableEq, Repr

/-- The width tag `encode_register` pushes for a class. -/
def RegisterClass.tag : RegisterClass → BitVec 8
  | .R => 0x08
  | .EXR => 0x16
  | .HER => 0x32
  | .FER => 0x64

/-- The name `decode_register` writes before the index. -/
def RegisterClass.name : RegisterClass → String
  | .R => "%R"
  | .EXR => "%EXR"
  | .HER => "%HER"
  | .FER => "%FER"

/-- A register operand: its class and its index byte. -/
structure WireRegister where
  cls : RegisterClass
  index : BitVec 8
  deriving DecidableEq, Repr

/-- A constant: its sign byte and its eight value bytes. -/
structure WireConstant where
  sign : BitVec 8
  value : BitVec 64
  deriving DecidableEq, Repr

/-- A sub-operand of a memory operand. -/
inductive SubOperand
  | register (r : WireRegister)
  | constant (c : WireConstant)
  deriving DecidableEq, Repr

/-- The ratios `memory_pattern` allows. -/
inductive Ratio
  | one
  | two
  | four
  | eight
  | sixteen
  deriving DecidableEq, Repr

/-- The ratio's packed-BCD byte. -/
def Ratio.code : Ratio → BitVec 8
  | .one => 0x01
  | .two => 0x02
  | .four => 0x04
  | .eight => 0x08
  | .sixteen => 0x16

/-- The ratio as it is written. -/
def Ratio.text : Ratio → String
  | .one => "1"
  | .two => "2"
  | .four => "4"
  | .eight => "8"
  | .sixteen => "16"

/-- An operand. -/
inductive WireTarget
  | register (r : WireRegister)
  | constant (c : WireConstant)
  | memory (ratio : Ratio) (base off1 off2 : SubOperand)
  deriving DecidableEq, Repr

/-! ### Bytes -/

/-- The bytes of a register after its prefix. -/
def WireRegister.payload (r : WireRegister) : List (BitVec 8) := [r.cls.tag, r.index]

/-- The bytes of a constant after its prefix. -/
def WireConstant.payload (c : WireConstant) : List (BitVec 8) :=
  c.sign :: toBytesLE c.value.toNat 8

def SubOperand.bytes : SubOperand → List (BitVec 8)
  | .register r => REGISTER_PREFIX :: r.payload
  | .constant c => CONSTANT_PREFIX :: c.payload

def WireTarget.bytes : WireTarget → List (BitVec 8)
  | .register r => REGISTER_PREFIX :: r.payload
  | .constant c => CONSTANT_PREFIX :: c.payload
  | .memory ratio base off1 off2 =>
    MEMORY_PREFIX :: ratio.code :: (base.bytes ++ off1.bytes ++ off2.bytes)

/-! ### The bytes determine the operand -/

theorem RegisterClass.tag_injective : Function.Injective RegisterClass.tag := by
  intro a b
  cases a <;> cases b <;> decide

theorem Ratio.code_injective : Function.Injective Ratio.code := by
  intro a b
  cases a <;> cases b <;> decide

/-- The eight value bytes of a constant determine its value. -/
theorem toBytesLE_eight_injective {v w : BitVec 64} (h : toBytesLE v.toNat 8 = toBytesLE w.toNat 8) :
    v = w := by
  have h' := congrArg ofBytesLE h
  rw [ofBytesLE_toBytesLE, ofBytesLE_toBytesLE, Nat.mod_eq_of_lt (show v.toNat < 256 ^ 8 from v.isLt),
    Nat.mod_eq_of_lt (show w.toNat < 256 ^ 8 from w.isLt)] at h'
  exact BitVec.eq_of_toNat_eq h'

/-- A sub-operand's bytes end where its prefix says: whatever follows them is not read. -/
theorem SubOperand.bytes_append_inj {p q : SubOperand} {S S' : List (BitVec 8)}
    (h : p.bytes ++ S = q.bytes ++ S') : p = q ∧ S = S' := by
  rcases p with ⟨⟨cls, index⟩⟩ | ⟨⟨sign, value⟩⟩ <;>
    rcases q with ⟨⟨cls', index'⟩⟩ | ⟨⟨sign', value'⟩⟩
  · simp only [SubOperand.bytes, WireRegister.payload, List.cons_append, List.nil_append,
      List.cons.injEq, true_and] at h
    obtain ⟨htag, rfl, rfl⟩ := h
    rw [RegisterClass.tag_injective htag]
    exact ⟨rfl, rfl⟩
  · cases h
  · cases h
  · simp only [SubOperand.bytes, WireConstant.payload, List.cons_append, List.cons.injEq,
      true_and] at h
    obtain ⟨rfl, hrest⟩ := h
    obtain ⟨hvalue, rfl⟩ := List.append_inj hrest (by simp)
    rw [toBytesLE_eight_injective hvalue]
    exact ⟨rfl, rfl⟩

/-- Different operands have different bytes. -/
theorem WireTarget.bytes_injective : Function.Injective WireTarget.bytes := by
  intro a b h
  cases a with
  | register r =>
    cases b with
    | register r' =>
      cases (@SubOperand.bytes_append_inj (.register r) (.register r') [] [] (by simpa using h)).1
      rfl
    | constant c => cases h
    | memory => cases h
  | constant c =>
    cases b with
    | register r => cases h
    | constant c' =>
      cases (@SubOperand.bytes_append_inj (.constant c) (.constant c') [] [] (by simpa using h)).1
      rfl
    | memory => cases h
  | memory ratio base off1 off2 =>
    cases b with
    | register r => cases h
    | constant c => cases h
    | memory ratio' base' off1' off2' =>
      simp only [WireTarget.bytes, List.cons.injEq, true_and, List.append_assoc] at h
      obtain ⟨hratio, h₁⟩ := h
      obtain ⟨rfl, h₂⟩ := SubOperand.bytes_append_inj h₁
      obtain ⟨rfl, h₃⟩ := SubOperand.bytes_append_inj h₂
      obtain ⟨rfl, -⟩ := @SubOperand.bytes_append_inj off2 off2' [] [] (by simpa using h₃)
      rw [Ratio.code_injective hratio]

/-! ### Texts -/

/-- `prefix << static_cast<int>(register_index)`. -/
def WireRegister.text (r : WireRegister) : String := r.cls.name ++ toString r.index.toNat

/-- `"$(" << signed_num << ")"` for a non-zero sign byte, else the value in upper-case hex. -/
def WireConstant.text (c : WireConstant) : String :=
  "$(" ++ (if c.sign ≠ 0x00 then toString c.value.toInt
    else "0x" ++ String.mk (hexUpper c.value.toNat)) ++ ")"

def SubOperand.text : SubOperand → String
  | .register r => r.text
  | .constant c => c.text

/-- The strings `decode` appends, in order. -/
def WireTarget.text : WireTarget → List String
  | .register r => [r.text]
  | .constant c => [c.text]
  | .memory ratio base off1 off2 =>
    ["*" ++ ratio.text ++ "(", base.text, ", ", off1.text, ", ", off2.text, ")"]

/-! ### What the encoder produces -/

def WireRegister.Encodable (r : WireRegister) : Prop := r.index.toNat < 8

def WireConstant.Encodable (c : WireConstant) : Prop :=
  c.sign = 0x00 ∨ (c.sign = 0x01 ∧ c.value.toInt < 0)

def SubOperand.Encodable : SubOperand → Prop
  | .register r => r.cls = .FER ∧ r.Encodable
  | .constant c => c.Encodable

def WireTarget.Encodable : WireTarget → Prop
  | .register r => r.Encodable
  | .constant c => c.Encodable
  | .memory _ base off1 off2 => base.Encodable ∧ off1.Encodable ∧ off2.Encodable

instance (r : WireRegister) : Decidable r.Encodable := inferInstanceAs (Decidable (_ < _))

instance (c : WireConstant) : Decidable c.Encodable := inferInstanceAs (Decidable (_ ∨ _))

instance (p : SubOperand) : Decidable p.Encodable := by
  cases p <;> unfold SubOperand.Encodable <;> infer_instance

instance (op : WireTarget) : Decidable op.Encodable := by
  cases op <;> unfold WireTarget.Encodable <;> infer_instance

end Sysdarft
