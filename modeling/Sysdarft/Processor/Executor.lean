import Sysdarft.Processor.Decoder

/-!
# Processor — the executor and the interrupt vector table

`instruction_executor.cpp`:

* `__initialize_vector__` fills `interruption_vector_address_table` with the 512 entries
  `i ↦ 0xA0000 + 8 * i` (`interruption_vector_address_table_entry`).
* `processor::operation` pops a 64-bit opcode and runs `nop` at `0x00`, `add` at `0x01`, and
  `soft_interruption_ready(INT_ILLEGAL_INSTRUCTION)` at any other; `soft_interruption_ready` has
  an empty body, and nothing catches an exception `add` throws.
* `add` pops a width byte it never reads, then two targets, and stores the 64-bit sum of their
  values into the first.  The assignment `operand1 = …` and `get<uint64_t>()` are declared in
  `cpu.h`, which is not in the sources; they are `set_target_content_in_u64bit_t` and
  `get_target_content_in_u64bit_t`.

`operation_fault_paths` says what an unknown opcode and a failing `add` do: the first returns
with the instruction pointer past the opcode and nothing else changed, the second throws with no
register and no memory byte changed.
-/

namespace Sysdarft

/-! ### The interrupt vector table -/

/-- A `std::map<uint64_t, uint64_t>`, as the partial function it stores. -/
abbrev VectorTable := BitVec 64 → Option (BitVec 64)

/-- `std::map::insert`: a key already present keeps its value. -/
def VectorTable.insert (m : VectorTable) (k v : BitVec 64) : VectorTable :=
  fun x => if x = k ∧ m x = none then some v else m x

/-- The loop of `__initialize_vector__`, over `i = 0, …, n - 1`. -/
def initialize_vector (n : Nat) : VectorTable :=
  (List.range n).foldl (fun table i =>
    table.insert (BitVec.ofNat 64 i) (0xA0000 + BitVec.ofNat 64 i * 8)) fun _ => none

/-- `interruption_vector_address_table` after `__initialize_vector__`, `TOTAL_ENTRIES = 512`. -/
def interruption_vector_address_table : VectorTable := initialize_vector 512

/-- After `n ≤ 2 ^ 64` rounds of the loop, the keys below `n` are mapped. -/
theorem initialize_vector_apply (n : Nat) (hn : n ≤ 2 ^ 64) (x : BitVec 64) :
    initialize_vector n x = if x.toNat < n then some (0xA0000 + x * 8) else none := by
  induction n with
  | zero => rfl
  | succ n ih =>
    rw [initialize_vector, List.range_succ, List.foldl_append, List.foldl_cons, List.foldl_nil,
      ← initialize_vector, VectorTable.insert, ih (by omega)]
    by_cases hx : x = BitVec.ofNat 64 n
    · subst hx
      have : (BitVec.ofNat 64 n).toNat = n := by rw [BitVec.toNat_ofNat]; omega
      simp [this]
    · have : x.toNat ≠ n := fun h => hx (by rw [← h, BitVec.ofNat_toNat, BitVec.setWidth_eq])
      by_cases hlt : x.toNat < n
      · simp [hx, hlt, show x.toNat < n + 1 by omega]
      · simp [hx, hlt, show ¬ x.toNat < n + 1 by omega]

/-- Entry `i` of the table is `0xA0000 + 8 * i` for `i < 512`, and there is no other. -/
theorem interruption_vector_address_table_entry (x : BitVec 64) :
    interruption_vector_address_table x =
      if x.toNat < 512 then some (0xA0000 + x * 8) else none :=
  initialize_vector_apply 512 (by decide) x

/-! ### The executor -/

/-- `INT_ILLEGAL_INSTRUCTION`.  Modelled from the spec: `cpu.h`, which defines it, is not in the
sources; scenario 6 of §8 sends an unknown opcode to "the illegal-instruction vector entry
`0xA0000`", which is entry 0. -/
def INT_ILLEGAL_INSTRUCTION : BitVec 64 := 0

/-- `processor::soft_interruption_ready`, whose body is empty. -/
def soft_interruption_ready (_int_code : BitVec 64) : Exec Unit := pure ()

/-- `__InstructionExecutorType__::nop`: a line of debug log. -/
def nop : Exec Unit := pure ()

variable (ci : ControlRegisterIndex)

/-- `__InstructionExecutorType__::pop_target`. -/
def pop_target : Exec Target := Target.construct ci

/-- `__InstructionExecutorType__::add`. -/
def add : Exec Unit := do
  let _width ← pop 8
  let operand1 ← pop_target ci
  let operand2 ← pop_target ci
  let value1 ← operand1.get_target_content_in_u64bit_t ci
  let value2 ← operand2.get_target_content_in_u64bit_t ci
  operand1.set_target_content_in_u64bit_t ci (value1 + value2)

/-- `processor::operation`. -/
def operation : Exec Unit := do
  let opcode ← pop 64
  if opcode = 0x00 then nop
  else if opcode = 0x01 then add ci
  else soft_interruption_ready INT_ILLEGAL_INSTRUCTION

/-- `pop<64>` reads back a 64-bit value stored little-endian at the instruction pointer. -/
theorem pop_sixty_four_value {s : Processor} {v : BitVec 64} {rest : List (BitVec 8)}
    (h : s.At (toBytesLE v.toNat 8 ++ rest)) : (pop 64).run s = .ok v (s.advance 8) := by
  rw [pop_sixty_four (length_toBytesLE _ _) h, ofBytesLE_toBytesLE, Nat.mod_eq_of_lt (show v.toNat < 256 ^ 8 from v.isLt),
    BitVec.ofNat_toNat, BitVec.setWidth_eq]

/-- An opcode other than `0x00` and `0x01` is stepped over: `soft_interruption_ready` does
nothing, so only the instruction pointer moves, by the eight opcode bytes. -/
theorem operation_unknown_opcode {s : Processor} {opcode : BitVec 64} {rest : List (BitVec 8)}
    (h : s.At (toBytesLE opcode.toNat 8 ++ rest)) (h₀ : opcode ≠ 0x00) (h₁ : opcode ≠ 0x01) :
    (operation ci).run s = .ok () (s.advance 8) := by
  simp only [operation]
  rw [run_bind_of_ok (pop_sixty_four_value h), if_neg h₀, if_neg h₁]
  rfl

theorem operation_add {s : Processor} {rest : List (BitVec 8)}
    (h : s.At (toBytesLE 1 8 ++ rest)) : (operation ci).run s = (add ci).run (s.advance 8) := by
  simp only [operation]
  rw [run_bind_of_ok (pop_sixty_four_value (v := 0x01) h), if_neg (by decide), if_pos rfl]

/-- `ADD` of two registers: the destination receives the 64-bit sum, cut to its width by the
store, and the instruction pointer moves past the fifteen bytes of the instruction. -/
theorem operation_add_registers (s : Processor) (w : BitVec 8) (rd rs : RegisterName)
    (hd : ¬ rd.IsBase ∧ ¬ rd.IsUpperFullyExtended) (hs : ¬ rs.IsBase ∧ ¬ rs.IsUpperFullyExtended)
    (rest : List (BitVec 8))
    (h : s.At (toBytesLE 1 8 ++ w :: REGISTER_PREFIX :: (rd.tag ci).1 :: (rd.tag ci).2 ::
      REGISTER_PREFIX :: (rs.tag ci).1 :: (rs.tag ci).2 :: rest)) :
    (operation ci).run s = .ok () { s.advance 15 with
      Registers := s.Registers.set rd (s.Registers.get rd + s.Registers.get rs) } := by
  have hnarrow : ∀ r : RegisterName, (r.tag ci).1 = 0x08 ∨ (r.tag ci).1 = 0x16 ∨
      (r.tag ci).1 = 0x32 ∨ (r.tag ci).1 = 0x64 ∨ (r.tag ci).1 = 0xFC := fun r => by
    rcases r.tag_width ci with h | h | h | h <;> simp [h]
  have h₈ := (Processor.at_append.mp h).2
  rw [length_toBytesLE] at h₈
  have h₉ := (Processor.at_cons.mp h₈).2
  have h₁₂ := (Processor.at_cons.mp (Processor.at_cons.mp (Processor.at_cons.mp h₉).2).2).2
  simp only [Processor.advance_advance] at h₉ h₁₂
  obtain ⟨t₁, h₁, ty₁, w₁, i₁⟩ := Target.construct_register_at ci h₉ (hnarrow rd)
  obtain ⟨t₂, h₂, ty₂, w₂, i₂⟩ := Target.construct_register_at ci h₁₂ (hnarrow rs)
  have htag₁ : (t₁.TargetWidth, t₁.RegisterIndex) = rd.tag ci := by rw [w₁, i₁]
  have htag₂ : (t₂.TargetWidth, t₂.RegisterIndex) = rs.tag ci := by rw [w₂, i₂]
  have hw₁ := w₁ ▸ rd.tag_width ci
  simp only [operation_add ci h, add, pop_target]
  rw [run_bind_of_ok (pop_eight h₈), Processor.advance_advance, run_bind_of_ok h₁,
    Processor.advance_advance, run_bind_of_ok h₂]
  simp only [Processor.advance_advance, get_target_content_register ci _ ty₁,
    get_target_content_register ci _ ty₂]
  rw [run_bind_of_ok (t₁.register_access_at ci _ 0 hd.1 hd.2 htag₁).1,
    run_bind_of_ok (t₂.register_access_at ci _ 0 hs.1 hs.2 htag₂).1,
    set_target_content_register ci _ t₁ _ ty₁ hw₁, (t₁.register_access_at ci _ _ hd.1 hd.2 htag₁).2]
  rfl

/-- The processor loaded with `ADD %FER0, %FER1` (`01 …` `64` `01 64 00` `01 64 01`), with `2`
in `FER0` and `3` in `FER1`. -/
def Processor.sampleAddRegisters : Processor :=
  { Processor.load (toBytesLE 1 8 ++ [0x64, 0x01, 0x64, 0x00, 0x01, 0x64, 0x01]) with
    Registers := ((Processor.load []).Registers.set (.FullyExtendedRegister 0) 2).set
      (.FullyExtendedRegister 1) 3 }

/-- `ADD %FER0, %FER1` with `2` and `3` in them leaves `5` in `FER0`. -/
theorem operation_add_fer_zero_one :
    (operation .sample).run Processor.sampleAddRegisters =
      .ok () { Processor.sampleAddRegisters.advance 15 with
        Registers := Processor.sampleAddRegisters.Registers.set (.FullyExtendedRegister 0) 5 } :=
  (operation_add_registers .sample _ 0x64 (.FullyExtendedRegister 0) (.FullyExtendedRegister 1)
    (by simp [RegisterName.IsBase, RegisterName.IsUpperFullyExtended])
    (by simp [RegisterName.IsBase, RegisterName.IsUpperFullyExtended]) [] (by rfl)).trans (by rfl)

/-- `ADD %FER0, <*1($(0x40), $(0), $(0))>` with a one-byte source over memory holding
`0x00 0x01` at `0x40`: the source's byte is 0, but `FER0` ends at 256, the neighbouring byte
included. -/
theorem add_narrow_source_reads_neighbour :
    (Exec.final ((operation ci).run (Processor.load (toBytesLE 1 8 ++
      [0x64, 0x01, 0x64, 0x00, 0x03, 0x08, 0x02, 0x64] ++ toBytesLE 0x40 8 ++
      [0x02, 0x64] ++ toBytesLE 0 8 ++ [0x02, 0x64] ++ toBytesLE 0 8 ++ [0x01] ++
      List.replicate 19 0 ++ [0x00, 0x01])))).Registers.FullyExtendedRegister 0 = 256 := rfl

/-- `add` keeps every register and memory byte when it throws. -/
theorem add_keepsOnError : (add ci).KeepsOnError :=
  Exec.KeepsOnError.bind (Exec.readsOnly_pop 8) fun _ =>
  Exec.KeepsOnError.bind (Target.construct_readsOnly ci) fun operand1 =>
  Exec.KeepsOnError.bind (Target.construct_readsOnly ci) fun operand2 =>
  Exec.KeepsOnError.bind (operand1.get_target_content_readsOnly ci) fun _ =>
  Exec.KeepsOnError.bind (operand2.get_target_content_readsOnly ci) fun _ =>
  operand1.set_target_content_keepsOnError ci _

/-- The fault paths of `processor::operation`.  At an unknown opcode it returns, with the
instruction pointer past the opcode and nothing else changed; at `ADD` it runs `add` on the
bytes after the opcode and lets its exceptions through, and when it throws, no register and no
memory byte has changed. -/
theorem operation_fault_paths (s : Processor) (opcode : BitVec 64) (rest : List (BitVec 8))
    (h : s.At (toBytesLE opcode.toNat 8 ++ rest)) :
    (opcode ≠ 0x00 → opcode ≠ 0x01 → (operation ci).run s = .ok () (s.advance 8)) ∧
    (opcode = 0x01 → (operation ci).run s = (add ci).run (s.advance 8) ∧
      ∀ e s', (operation ci).run s = .error e s' →
        s'.Registers = s.Registers ∧ s'.Memory = s.Memory) := by
  refine ⟨operation_unknown_opcode ci h, fun h₁ => ?_⟩
  subst h₁
  refine ⟨operation_add ci h, fun e s' he => ?_⟩
  rw [operation_add ci h] at he
  simpa using add_keepsOnError ci _ e s' he

/-- The processor loaded with the opcode 2, which names no instruction. -/
def Processor.sampleUnknownOpcode : Processor := Processor.load (toBytesLE 2 8)

/-- At the opcode 2 `operation` returns with the instruction pointer at 8, just past the opcode,
where the vector table's entry for `INT_ILLEGAL_INSTRUCTION` is `0xA0000`. -/
theorem operation_fault_paths_two :
    Processor.sampleUnknownOpcode.At (toBytesLE (2 : BitVec 64).toNat 8 ++ []) ∧
    (((2 : BitVec 64) ≠ 0x00 → (2 : BitVec 64) ≠ 0x01 →
      (operation .sample).run Processor.sampleUnknownOpcode =
        .ok () (Processor.sampleUnknownOpcode.advance 8)) ∧
    ((2 : BitVec 64) = 0x01 → (operation .sample).run Processor.sampleUnknownOpcode =
        (add .sample).run (Processor.sampleUnknownOpcode.advance 8) ∧
      ∀ e s', (operation .sample).run Processor.sampleUnknownOpcode = .error e s' →
        s'.Registers = Processor.sampleUnknownOpcode.Registers ∧
          s'.Memory = Processor.sampleUnknownOpcode.Memory)) ∧
    (Processor.sampleUnknownOpcode.advance 8).InstructionPointer = 8 ∧
    interruption_vector_address_table INT_ILLEGAL_INSTRUCTION = some 0xA0000 :=
  ⟨by rfl, operation_fault_paths .sample _ 2 [] (by rfl), rfl,
    by rw [interruption_vector_address_table_entry]; rfl⟩

end Sysdarft
