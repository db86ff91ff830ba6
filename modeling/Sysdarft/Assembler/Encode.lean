import Sysdarft.Word
import Sysdarft.Assembler.Text
import Sysdarft.Assembler.Calculator
import Sysdarft.Assembler.Base16

/-!
# Assembler — the encoder

`encode_target` in `encode.target.cpp` appends the bytes of one operand to a
`std::vector<uint8_t>`:

* a register `%R3` is `01`, its width tag (`08`, `16`, `32`, `64` by the second character of the
  name) and its index;
* a constant `$(e)` is `02`, a sign byte and eight little-endian value bytes; the value is read
  from what `bc` prints twice, by `strtoll` and by `strtoull`, and the sign of the text decides
  between them when they differ;
* a memory operand `*r(b, o1, o2)` is `03`, the ratio as a packed-BCD byte, then the three
  sub-operands, each a 64-bit register or a constant in full.

The vector is the state of `Encode`: a `TargetExpressionError` leaves it as it stood when
thrown, so bytes pushed before the throw stay.
-/

namespace Sysdarft

/-- The encoder's computations over the byte vector it appends to. -/
abbrev Encode := EStateM TargetExpressionError (List (BitVec 8))

/-- `push<LENGTH>(buffer, &value)`: the `LENGTH / 8` bytes at `&value`, which on the
little-endian host are the low bytes of its two's-complement value. -/
def push (LENGTH : Nat) (value : Int) : Encode Unit :=
  modify fun buffer => buffer ++ toBytesLE (value % 2 ^ LENGTH).toNat (LENGTH / 8)

/-- `push8`. -/
def push8 (value : BitVec 8) : Encode Unit := push 8 value.toNat

/-- `execute_bc(input)`: `bc` prints the value of the expression and a line break, which the
readers after it stop at.  A text without a value is a failed run; `_exec_command`, not in the
sources, reports such a run with exit status 1. -/
def execute_bc (input : List Char) : Encode (List Char) :=
  match bcEvaluate input with
  | some n => pure (toString n).data
  | none => throw (.ofMessage (String.mk input ++ ": " ++ toString 1))

/-- `encode_register`. -/
def encode_register (input : parsed_target_t) : Encode Unit := do
  let suffix := [input.RegisterName.getLastD ' ']
  let register_index := BitVec.ofInt 8 (strtol suffix 10)
  push8 REGISTER_PREFIX
  (match input.RegisterName.getD 1 ' ' with
    | 'R' => push8 0x08
    | 'E' => push8 0x16
    | 'H' => push8 0x32
    | 'F' => push8 0x64
    | _ => throw (.ofMessage "Unrecognized register name") : Encode Unit)
  push8 register_index

/-- The choice `encode_constant` makes between the two readings of what `bc` printed. -/
def constantResult (tmp result_from_bc : List Char) : Int :=
  let result_cmp1 : Int := strtoll result_from_bc 10
  let result_cmp2 : Int := strtoull result_from_bc 10
  if result_cmp1 = result_cmp2 then result_cmp1
  else if tmp.head? = some '-' then result_cmp1
  else result_cmp2

/-- `encode_constant`.  `tmp.front()` is read only when `bc` printed a value, so `tmp` is not
empty there. -/
def encode_constant (input : parsed_target_t) : Encode Unit := do
  let tmp := input.ConstantExpression
  (if tmp.length ≤ 2 then throw (.ofMessage (String.mk input.ConstantExpression))
    else pure () : Encode Unit)
  let tmp := process_base16 ((tmp.dropLast).drop 2)
  push8 CONSTANT_PREFIX
  let result_from_bc ← execute_bc tmp
  let result := constantResult tmp result_from_bc
  push8 (if result < 0 then 0x01 else 0x00)
  push 64 result

/-- The lambda `encode_each_parameter` of `encode_memory`. -/
def encode_each_parameter (param : List Char) : Encode Unit :=
  if is_valid_register param then
    if param.dropLast ≠ "%FER".data then
      throw (.ofMessage ("Not a 64bit Register: " ++ String.mk param))
    else encode_register { TargetType := .REGISTER, RegisterName := param }
  else if is_valid_constant param then
    encode_constant { TargetType := .CONSTANT, ConstantExpression := param }
  else throw (.ofMessage (String.mk param))

/-- `encode_memory`. -/
def encode_memory (input : parsed_target_t) : Encode Unit := do
  push8 MEMORY_PREFIX
  (if input.MemoryAccessRatio = ['1'] then push8 0x01
    else if input.MemoryAccessRatio = ['2'] then push8 0x02
    else if input.MemoryAccessRatio = ['4'] then push8 0x04
    else if input.MemoryAccessRatio = ['8'] then push8 0x08
    else if input.MemoryAccessRatio = ['1', '6'] then push8 0x16
    else pure () : Encode Unit)
  encode_each_parameter input.MemoryBaseAddress
  encode_each_parameter input.MemoryOffset1
  encode_each_parameter input.MemoryOffset2

/-- `encode_target`. -/
def encode_target (input : String) : Encode Unit :=
  match parse input.data with
  | .error e => throw e
  | .ok parsed =>
    match parsed.TargetType with
    | .REGISTER => encode_register parsed
    | .CONSTANT => encode_constant parsed
    | .MEMORY => encode_memory parsed
    | .NOTaValidType => throw (.ofMessage input)

/-! ### The encoder only appends -/

/-- A result of a run with `buf` put in front of the bytes it ended with. -/
def appendTo {α : Type} (buf : List (BitVec 8)) :
    EStateM.Result TargetExpressionError (List (BitVec 8)) α →
      EStateM.Result TargetExpressionError (List (BitVec 8)) α
  | .ok a bs => .ok a (buf ++ bs)
  | .error e bs => .error e (buf ++ bs)

/-- A computation that only appends: from any buffer it ends as it does from the empty one,
with the buffer in front of the bytes. -/
def Encode.Appends {α : Type} (x : Encode α) : Prop :=
  ∀ buf, x.run buf = appendTo buf (x.run [])

section Appends

variable {α β : Type}

theorem appendTo_appendTo (buf bs : List (BitVec 8))
    (r : EStateM.Result TargetExpressionError (List (BitVec 8)) α) :
    appendTo buf (appendTo bs r) = appendTo (buf ++ bs) r := by
  cases r <;> simp [appendTo]

theorem Encode.appends_pure (a : α) : (pure a : Encode α).Appends := fun _ => by
  simp [run_eq_apply, pure, EStateM.pure, appendTo]

theorem Encode.appends_throw (e : TargetExpressionError) : (throw e : Encode α).Appends :=
  fun _ => by simp [run_eq_apply, throw, throwThe, MonadExceptOf.throw, EStateM.throw, appendTo]

theorem Encode.appends_push (LENGTH : Nat) (value : Int) : (push LENGTH value).Appends :=
  fun _ => by simp [run_eq_apply, push, modify, modifyGet, MonadStateOf.modifyGet,
    EStateM.modifyGet, appendTo]

theorem Encode.appends_push8 (value : BitVec 8) : (push8 value).Appends :=
  Encode.appends_push 8 _

theorem Encode.Appends.bind {x : Encode α} {f : α → Encode β} (hx : x.Appends)
    (hf : ∀ a, (f a).Appends) : (x >>= f).Appends := by
  intro buf
  cases h : x.run [] with
  | ok a bs =>
    have h' : x.run buf = .ok a (buf ++ bs) := by rw [hx buf, h]; rfl
    rw [run_bind_of_ok h', run_bind_of_ok h, hf a (buf ++ bs), hf a bs, appendTo_appendTo]
  | error e bs =>
    have h' : x.run buf = .error e (buf ++ bs) := by rw [hx buf, h]; rfl
    rw [run_bind_of_error h', run_bind_of_error h]
    rfl

theorem Encode.Appends.ite {c : Prop} [Decidable c] {x y : Encode α} (hx : x.Appends)
    (hy : y.Appends) : (if c then x else y).Appends := by
  split <;> assumption

end Appends

theorem execute_bc_appends (input : List Char) : (execute_bc input).Appends := by
  unfold execute_bc
  split
  · exact Encode.appends_pure _
  · exact Encode.appends_throw _

theorem encode_register_appends (input : parsed_target_t) : (encode_register input).Appends := by
  unfold encode_register
  refine (Encode.appends_push8 _).bind fun _ => Encode.Appends.bind ?_ fun _ =>
    Encode.appends_push8 _
  split <;> first | exact Encode.appends_push8 _ | exact Encode.appends_throw _

theorem encode_constant_appends (input : parsed_target_t) : (encode_constant input).Appends := by
  unfold encode_constant
  refine Encode.Appends.bind (Encode.Appends.ite (Encode.appends_throw _) (Encode.appends_pure _))
    fun _ => (Encode.appends_push8 _).bind fun _ => (execute_bc_appends _).bind fun _ =>
      (Encode.appends_push8 _).bind fun _ => Encode.appends_push _ _

theorem encode_each_parameter_appends (param : List Char) :
    (encode_each_parameter param).Appends := by
  unfold encode_each_parameter
  refine Encode.Appends.ite (Encode.Appends.ite (Encode.appends_throw _)
    (encode_register_appends _)) (Encode.Appends.ite (encode_constant_appends _)
    (Encode.appends_throw _))

theorem encode_memory_appends (input : parsed_target_t) : (encode_memory input).Appends := by
  unfold encode_memory
  refine (Encode.appends_push8 _).bind fun _ => Encode.Appends.bind ?_ fun _ =>
    (encode_each_parameter_appends _).bind fun _ => (encode_each_parameter_appends _).bind
      fun _ => encode_each_parameter_appends _
  repeat' first
    | exact Encode.appends_push8 _
    | exact Encode.appends_pure _
    | refine Encode.Appends.ite ?_ ?_

/-- `encode_target` only appends, and a text `parse` rejects appends nothing. -/
theorem encode_target_appends (T : String) :
    (encode_target T).Appends ∧
      ∀ e, parse T.data = .error e → ∀ buf, (encode_target T).run buf = .error e buf := by
  refine ⟨?_, fun e he buf => by simp only [encode_target, he]; rfl⟩
  unfold encode_target
  split
  · exact Encode.appends_throw _
  · split
    · exact encode_register_appends _
    · exact encode_constant_appends _
    · exact encode_memory_appends _
    · exact Encode.appends_throw _

/-- A memory operand whose second sub-operand is no 64-bit register throws after the prefix,
the ratio and the first sub-operand are in the buffer. -/
theorem encode_target_keeps_partial_bytes :
    (encode_target "*1(%FER0,%R0,%FER1)").run [] =
      .error (.ofMessage "Not a 64bit Register: %R0") [0x03, 0x01, 0x01, 0x64, 0x00] := by
  rfl

end Sysdarft
