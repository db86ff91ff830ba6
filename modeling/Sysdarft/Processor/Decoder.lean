import Sysdarft.Processor.Target

/-!
# Processor — decoding an operand from the instruction stream

The constructor `Target::Target(processor &)` (`Target.construct`) pops a prefix byte and hands it to
`do_decode_via_prefix`, which fills the target in place:

* `do_setup_register_info` pops a width tag and an index, and accepts the tags `0x08, 0x16,
  0x32, 0x64, 0xFC`;
* `do_setup_constant_info` asserts that the next byte is `0x64` and pops a 64-bit value;
* `do_setup_memory_info` pops a width tag, then three sub-operands, each a prefix asserted to be
  `REGISTER_PREFIX` or `CONSTANT_PREFIX`, decoded into the same target and read at once with
  `get_target_content_in_u64bit_t`, and last a ratio byte; the address is
  `(BaseAddress + Offset1 + Offset2) * Ratio`.

`do_setup_memory_info` calls `do_decode_via_prefix` back, but only after its assertion, so the
call is `decode_register_or_constant` here: `do_decode_via_prefix` with its two branches the
assertion leaves.

Decoding only reads: `Target_readsOnly` says that whatever it returns or throws, no register
and no memory byte has changed.  The `…_at` lemmas compute a decode on known bytes at the
instruction pointer.
-/

namespace Sysdarft

variable (ci : ControlRegisterIndex)

/-- `Target::do_setup_register_info`. -/
def Target.do_setup_register_info (t : Target) : Exec Target := do
  let width ← pop 8
  let register_index ← pop 8
  let t := { t with RegisterIndex := register_index, TargetType := .TypeRegister,
                    TargetWidth := width }
  let index := toString register_index.toNat
  if width = 0x08 then pure { t with literal := "%R" ++ index }
  else if width = 0x16 then pure { t with literal := "%EXR" ++ index }
  else if width = 0x32 then pure { t with literal := "%HER" ++ index }
  else if width = 0x64 then pure { t with literal := "%FER" ++ index }
  else if width = 0xFC then pure { t with literal := "%XMM" ++ index }
  else throw (assertionFailed 27 "do_setup_register_info" "false")

/-- `Target::do_setup_constant_info`. -/
def Target.do_setup_constant_info (t : Target) : Exec Target := do
  let tag ← pop 8
  illegalInstructionAssert (tag = 0x64) 33 "do_setup_constant_info" "CPU.pop<8>() == 0x64"
  let constant_value ← pop 64
  pure { t with TargetType := .TypeConstant, ConstantValue := constant_value,
                literal := "$(" ++ toString constant_value.toNat ++ ")" }

/-- `do_decode_via_prefix(Prefix)` at a prefix asserted to be `REGISTER_PREFIX` or
`CONSTANT_PREFIX`. -/
def Target.decode_register_or_constant (t : Target) (Prefix : BitVec 8) : Exec Target :=
  if Prefix = REGISTER_PREFIX then t.do_setup_register_info else t.do_setup_constant_info

/-- One of the three blocks of `do_setup_memory_info`: pop the prefix named `name`, assert it
(at `line`), decode the sub-operand into the target and read its value. -/
def Target.memory_sub_operand (t : Target) (line : Nat) (name : String) :
    Exec (Target × BitVec 64) := do
  let Prefix ← pop 8
  illegalInstructionAssert (Prefix = REGISTER_PREFIX || Prefix = CONSTANT_PREFIX) line
    "do_setup_memory_info" (name ++ " == REGISTER_PREFIX || " ++ name ++ " == CONSTANT_PREFIX")
  let t ← t.decode_register_or_constant Prefix
  let value ← t.get_target_content_in_u64bit_t ci
  pure (t, value)

/-- `Target::do_setup_memory_info`. -/
def Target.do_setup_memory_info (t : Target) : Exec Target := do
  let width ← pop 8
  let (t, BaseAddress) ← t.memory_sub_operand ci 47 "PrefixBaseAddress"
  let literal_base := t.literal
  let (t, Offset1) ← t.memory_sub_operand ci 54 "PrefixOffset1"
  let literal_off1 := t.literal
  let (t, Offset2) ← t.memory_sub_operand ci 61 "PrefixOffset2"
  let literal_off2 := t.literal
  let Ratio ← pop 8
  pure { t with TargetType := .TypeMemory,
                MemoryAddress := (BaseAddress + Offset1 + Offset2) * Ratio.setWidth 64,
                TargetWidth := width,
                literal := "*" ++ toString Ratio.toNat ++ "(" ++ literal_base ++ ", " ++
                  literal_off1 ++ ", " ++ literal_off2 ++ ")" }

/-- `Target::do_decode_via_prefix`. -/
def Target.do_decode_via_prefix (t : Target) (Prefix : BitVec 8) : Exec Target :=
  if Prefix = REGISTER_PREFIX then t.do_setup_register_info
  else if Prefix = CONSTANT_PREFIX then t.do_setup_constant_info
  else if Prefix = MEMORY_PREFIX then t.do_setup_memory_info ci
  else throw ⟨"Unknown Target prefix"⟩

/-- The members of a `Target` before its constructor has set them; `cpu.h` gives them no value
we can read.  A constant target keeps this `TargetWidth`, and a write to it throws whatever the
value. -/
def Target.unset : Target :=
  ⟨.TypeRegister, 0, 0, 0, 0, ""⟩

/-- The constructor `Target::Target(processor &)`. -/
def Target.construct : Exec Target := do
  let Prefix ← pop 8
  let t ← Target.unset.do_decode_via_prefix ci Prefix
  pure { t with literal := "<" ++ t.literal ++ ">" }

/-! ### Decoding only reads -/

theorem Target.do_setup_register_info_readsOnly (t : Target) :
    t.do_setup_register_info.ReadsOnly :=
  (Exec.readsOnly_pop 8).bind fun _ => (Exec.readsOnly_pop 8).bind fun _ => by
    split_ifs <;> first | exact Exec.readsOnly_pure _ | exact Exec.readsOnly_throw _

theorem Target.do_setup_constant_info_readsOnly (t : Target) :
    t.do_setup_constant_info.ReadsOnly :=
  (Exec.readsOnly_pop 8).bind fun _ => (illegalInstructionAssert_readsOnly _ _ _ _).bind fun _ =>
    (Exec.readsOnly_pop 64).bind fun _ => Exec.readsOnly_pure _

theorem Target.memory_sub_operand_readsOnly (t : Target) (line : Nat) (name : String) :
    (t.memory_sub_operand ci line name).ReadsOnly :=
  (Exec.readsOnly_pop 8).bind fun _ => (illegalInstructionAssert_readsOnly _ _ _ _).bind fun _ =>
    (Exec.ReadsOnly.ite (Target.do_setup_register_info_readsOnly t)
      (Target.do_setup_constant_info_readsOnly t)).bind fun t' =>
    (t'.get_target_content_readsOnly ci).bind fun _ => Exec.readsOnly_pure _

theorem Target.do_setup_memory_info_readsOnly (t : Target) :
    (t.do_setup_memory_info ci).ReadsOnly :=
  (Exec.readsOnly_pop 8).bind fun _ => (t.memory_sub_operand_readsOnly ci _ _).bind fun p₁ =>
    (p₁.1.memory_sub_operand_readsOnly ci _ _).bind fun p₂ =>
    (p₂.1.memory_sub_operand_readsOnly ci _ _).bind fun _ =>
    (Exec.readsOnly_pop 8).bind fun _ => Exec.readsOnly_pure _

theorem Target.do_decode_via_prefix_readsOnly (t : Target) (Prefix : BitVec 8) :
    (t.do_decode_via_prefix ci Prefix).ReadsOnly :=
  Exec.ReadsOnly.ite t.do_setup_register_info_readsOnly <|
  Exec.ReadsOnly.ite t.do_setup_constant_info_readsOnly <|
  Exec.ReadsOnly.ite (t.do_setup_memory_info_readsOnly ci) (Exec.readsOnly_throw _)

/-- Decoding an operand writes no register and no memory byte, whether it returns or throws. -/
theorem Target.construct_readsOnly : (Target.construct ci).ReadsOnly :=
  (Exec.readsOnly_pop 8).bind fun p => (Target.unset.do_decode_via_prefix_readsOnly ci p).bind
    fun _ => Exec.readsOnly_pure _

/-! ### Decoding known bytes -/

theorem Target.do_setup_register_info_at (t : Target) {s : Processor} {w i : BitVec 8}
    {rest : List (BitVec 8)} (h : s.At (w :: i :: rest))
    (hw : w = 0x08 ∨ w = 0x16 ∨ w = 0x32 ∨ w = 0x64 ∨ w = 0xFC) :
    ∃ literal, t.do_setup_register_info.run s =
      .ok { t with RegisterIndex := i, TargetType := .TypeRegister, TargetWidth := w, literal }
        (s.advance 2) := by
  have h₂ := pop_eight (Processor.at_cons.mp h).2
  simp only [Target.do_setup_register_info]
  rw [run_bind_of_ok (pop_eight h), run_bind_of_ok h₂, Processor.advance_advance]
  rcases hw with rfl | rfl | rfl | rfl | rfl <;> exact ⟨_, rfl⟩

theorem Target.do_setup_constant_info_at (t : Target) {s : Processor}
    {bs rest : List (BitVec 8)} (hlen : bs.length = 8) (h : s.At (0x64 :: bs ++ rest)) :
    ∃ literal, t.do_setup_constant_info.run s =
      .ok { t with TargetType := .TypeConstant, ConstantValue := BitVec.ofNat 64 (ofBytesLE bs),
                   literal } (s.advance 9) := by
  have h₂ := pop_sixty_four hlen (Processor.at_cons.mp h).2
  simp only [Target.do_setup_constant_info]
  rw [run_bind_of_ok (pop_eight h)]
  simp only [illegalInstructionAssert, decide_True, if_true]
  rw [run_bind_of_ok (x := pure ()) rfl, run_bind_of_ok h₂, Processor.advance_advance]
  exact ⟨_, rfl⟩

theorem Target.do_setup_constant_info_at_error (t : Target) {s : Processor} {b : BitVec 8}
    {rest : List (BitVec 8)} (h : s.At (b :: rest)) (hb : b ≠ 0x64) :
    ∃ e, t.do_setup_constant_info.run s = .error e (s.advance 1) := by
  simp only [Target.do_setup_constant_info]
  rw [run_bind_of_ok (pop_eight h)]
  simp only [illegalInstructionAssert, hb, decide_False]
  exact ⟨_, rfl⟩

theorem selectRegister_width {n : Nat} {w i : BitVec 8} {r : RegisterName}
    (h : selectRegister ci n w i = some r) : w = 0x08 ∨ w = 0x16 ∨ w = 0x32 ∨ w = 0x64 := by
  obtain ⟨htag, -, -⟩ := tag_of_selectRegister ci h
  rw [show w = (r.tag ci).1 from congrArg Prod.fst htag]
  cases r <;> simp [RegisterName.tag]

/-- A register sub-operand of a memory operand decodes to the register's content. -/
theorem Target.memory_sub_operand_register_at (t : Target) (line : Nat) (name : String)
    {s : Processor} {w i : BitVec 8} {rest : List (BitVec 8)} {r : RegisterName}
    (h : s.At (REGISTER_PREFIX :: w :: i :: rest)) (hr : selectRegister ci 8 w i = some r) :
    ∃ t', (t.memory_sub_operand ci line name).run s = .ok (t', s.Registers.get r) (s.advance 3) := by
  obtain ⟨literal, hreg⟩ := t.do_setup_register_info_at (Processor.at_cons.mp h).2
    (by rcases selectRegister_width ci hr with h | h | h | h <;> simp [h])
  simp only [Target.memory_sub_operand]
  rw [run_bind_of_ok (pop_eight h)]
  simp only [illegalInstructionAssert, REGISTER_PREFIX, decide_True, Bool.true_or, if_true]
  rw [run_bind_of_ok (x := pure ()) rfl]
  simp only [Target.decode_register_or_constant, REGISTER_PREFIX, if_true]
  rw [run_bind_of_ok hreg, run_bind_of_ok (by
    simp only [Target.get_target_content_in_u64bit_t, Target.do_get_register, run_eq_apply, hr]
    exact rfl)]
  simp only [Processor.advance_advance, Processor.advance_Registers]
  exact ⟨_, rfl⟩

/-- A constant sub-operand in the processor's layout decodes to its value. -/
theorem Target.memory_sub_operand_constant_at (t : Target) (line : Nat) (name : String)
    {s : Processor} {bs rest : List (BitVec 8)} (hlen : bs.length = 8)
    (h : s.At (CONSTANT_PREFIX :: 0x64 :: bs ++ rest)) :
    ∃ t', (t.memory_sub_operand ci line name).run s =
      .ok (t', BitVec.ofNat 64 (ofBytesLE bs)) (s.advance 10) := by
  obtain ⟨literal, hcon⟩ := t.do_setup_constant_info_at hlen (Processor.at_cons.mp h).2
  simp only [Target.memory_sub_operand]
  rw [run_bind_of_ok (pop_eight h)]
  simp only [illegalInstructionAssert, CONSTANT_PREFIX, decide_True, Bool.or_true, if_true]
  rw [run_bind_of_ok (x := pure ()) rfl]
  simp only [Target.decode_register_or_constant, REGISTER_PREFIX, CONSTANT_PREFIX]
  rw [if_neg (by decide), run_bind_of_ok hcon]
  exact ⟨_, by simp only [Processor.advance_advance]; rfl⟩

/-- A constant sub-operand whose second byte is not `0x64` throws. -/
theorem Target.memory_sub_operand_constant_at_error (t : Target) (line : Nat) (name : String)
    {s : Processor} {b : BitVec 8} {rest : List (BitVec 8)}
    (h : s.At (CONSTANT_PREFIX :: b :: rest)) (hb : b ≠ 0x64) :
    ∃ e s', (t.memory_sub_operand ci line name).run s = .error e s' := by
  obtain ⟨e, hcon⟩ := t.do_setup_constant_info_at_error (Processor.at_cons.mp h).2 hb
  simp only [Target.memory_sub_operand]
  rw [run_bind_of_ok (pop_eight h)]
  simp only [illegalInstructionAssert, CONSTANT_PREFIX, decide_True, Bool.or_true, if_true]
  rw [run_bind_of_ok (x := pure ()) rfl]
  simp only [Target.decode_register_or_constant, REGISTER_PREFIX, CONSTANT_PREFIX]
  rw [if_neg (by decide), run_bind_of_error hcon]
  exact ⟨_, _, rfl⟩

/-- A memory operand whose three sub-operands decode to `vb`, `v₁`, `v₂` is at address
`(vb + v₁ + v₂) * Ratio`, with `Ratio` the raw byte after them, whatever that byte is. -/
theorem Target.do_setup_memory_info_at (t : Target) {s s₁ s₂ s₃ : Processor}
    {w Ratio : BitVec 8} {rest : List (BitVec 8)} {t₁ t₂ t₃ : Target} {vb v₁ v₂ : BitVec 64}
    (hw : s.At (w :: rest))
    (h₁ : (t.memory_sub_operand ci 47 "PrefixBaseAddress").run (s.advance 1) = .ok (t₁, vb) s₁)
    (h₂ : (t₁.memory_sub_operand ci 54 "PrefixOffset1").run s₁ = .ok (t₂, v₁) s₂)
    (h₃ : (t₂.memory_sub_operand ci 61 "PrefixOffset2").run s₂ = .ok (t₃, v₂) s₃)
    (hr : s₃.At [Ratio]) :
    ∃ literal, (t.do_setup_memory_info ci).run s =
      .ok { t₃ with TargetType := .TypeMemory, MemoryAddress := (vb + v₁ + v₂) * Ratio.setWidth 64,
                    TargetWidth := w, literal } (s₃.advance 1) := by
  simp only [Target.do_setup_memory_info]
  rw [run_bind_of_ok (pop_eight hw), run_bind_of_ok h₁, run_bind_of_ok h₂,
    run_bind_of_ok h₃, run_bind_of_ok (pop_eight hr)]
  exact ⟨_, rfl⟩

/-- The ratio byte is used as it is: the packed-BCD code `0x16` of 16 multiplies by 22, the
byte `0x03`, no ratio code, is accepted, and so is the 8-bit register `R0` as a base. -/
theorem do_setup_memory_info_raw_ratio :
    (Exec.value? ((Target.unset.do_setup_memory_info ci).run (Processor.load
      ([0x64, 0x02, 0x64] ++ toBytesLE 1 8 ++ [0x02, 0x64] ++ toBytesLE 0 8 ++ [0x02, 0x64] ++
        toBytesLE 0 8 ++ [0x16])))).map Target.MemoryAddress = some 22 ∧
    (Exec.value? ((Target.unset.do_setup_memory_info ci).run (Processor.load
      ([0x64, 0x02, 0x64] ++ toBytesLE 1 8 ++ [0x02, 0x64] ++ toBytesLE 0 8 ++ [0x02, 0x64] ++
        toBytesLE 0 8 ++ [0x03])))).map Target.MemoryAddress = some 3 ∧
    (Exec.value? ((Target.unset.do_setup_memory_info ci).run (Processor.load
      ([0x64, 0x01, 0x08, 0x00, 0x02, 0x64] ++ toBytesLE 1 8 ++ [0x02, 0x64] ++ toBytesLE 0 8 ++
        [0x02] ++ [0x64] ++ toBytesLE 0 8 ++ [0x02])))).map Target.MemoryAddress = some 2 :=
  ⟨rfl, rfl, rfl⟩

/-- A memory operand throws as soon as one of its sub-operands does. -/
theorem Target.do_setup_memory_info_error (t : Target) {s : Processor} {w : BitVec 8}
    {rest : List (BitVec 8)} (hw : s.At (w :: rest))
    (h : (∃ e s', (t.memory_sub_operand ci 47 "PrefixBaseAddress").run (s.advance 1) = .error e s') ∨
      (∃ t₁ vb s₁, (t.memory_sub_operand ci 47 "PrefixBaseAddress").run (s.advance 1) =
        .ok (t₁, vb) s₁ ∧ ((∃ e s', (t₁.memory_sub_operand ci 54 "PrefixOffset1").run s₁ = .error e s') ∨
      ∃ t₂ v₁ s₂, (t₁.memory_sub_operand ci 54 "PrefixOffset1").run s₁ = .ok (t₂, v₁) s₂ ∧
        ∃ e s', (t₂.memory_sub_operand ci 61 "PrefixOffset2").run s₂ = .error e s'))) :
    ∃ e s', (t.do_setup_memory_info ci).run s = .error e s' := by
  simp only [Target.do_setup_memory_info]
  rw [run_bind_of_ok (pop_eight hw)]
  rcases h with ⟨e, s', h₁⟩ | ⟨t₁, vb, s₁, h₁, ⟨e, s', h₂⟩ | ⟨t₂, v₁, s₂, h₂, e, s', h₃⟩⟩
  · exact ⟨e, s', run_bind_of_error h₁⟩
  · rw [run_bind_of_ok h₁]
    exact ⟨e, s', run_bind_of_error h₂⟩
  · rw [run_bind_of_ok h₁, run_bind_of_ok h₂]
    exact ⟨e, s', run_bind_of_error h₃⟩

/-! ### The constructor on known bytes -/

theorem Target.construct_register_at {s : Processor} {w i : BitVec 8} {rest : List (BitVec 8)}
    (h : s.At (REGISTER_PREFIX :: w :: i :: rest))
    (hw : w = 0x08 ∨ w = 0x16 ∨ w = 0x32 ∨ w = 0x64 ∨ w = 0xFC) :
    ∃ t, (Target.construct ci).run s = .ok t (s.advance 3) ∧ t.TargetType = .TypeRegister ∧
      t.TargetWidth = w ∧ t.RegisterIndex = i := by
  obtain ⟨literal, hreg⟩ := Target.unset.do_setup_register_info_at (Processor.at_cons.mp h).2 hw
  simp only [Target.construct]
  rw [run_bind_of_ok (pop_eight h)]
  simp only [Target.do_decode_via_prefix, REGISTER_PREFIX, if_true]
  rw [run_bind_of_ok hreg, Processor.advance_advance]
  exact ⟨_, rfl, rfl, rfl, rfl⟩

theorem Target.construct_constant_at_error {s : Processor} {b : BitVec 8}
    {rest : List (BitVec 8)} (h : s.At (CONSTANT_PREFIX :: b :: rest)) (hb : b ≠ 0x64) :
    ∃ e s', (Target.construct ci).run s = .error e s' := by
  obtain ⟨e, hcon⟩ := Target.unset.do_setup_constant_info_at_error (Processor.at_cons.mp h).2 hb
  simp only [Target.construct]
  rw [run_bind_of_ok (pop_eight h)]
  simp only [Target.do_decode_via_prefix, REGISTER_PREFIX, CONSTANT_PREFIX]
  rw [if_neg (by decide)]
  simp only [if_true]
  rw [run_bind_of_error hcon]
  exact ⟨_, _, rfl⟩

theorem Target.construct_memory {s : Processor} {rest : List (BitVec 8)}
    (h : s.At (MEMORY_PREFIX :: rest)) :
    (Target.construct ci).run s = (do
      let t ← Target.unset.do_setup_memory_info ci
      pure { t with literal := "<" ++ t.literal ++ ">" }).run (s.advance 1) := by
  simp only [Target.construct]
  rw [run_bind_of_ok (pop_eight h)]
  simp only [Target.do_decode_via_prefix, REGISTER_PREFIX, CONSTANT_PREFIX, MEMORY_PREFIX]
  rw [if_neg (by decide), if_neg (by decide)]
  simp only [if_true]

end Sysdarft
