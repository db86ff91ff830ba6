import Sysdarft.Processor.State

/-!
# Processor — operand targets and their access

`processor::Target` is a decoded operand: a register (`TargetWidth` and
`TargetInformation.RegisterIndex`), a constant (`ConstantValue`) or a memory cell
(`MemoryAddress` and `TargetWidth`).  This module gives the record and its four accessors from
`real_mode_target_access.cpp`:

* `Target.do_get_register` and `Target.do_set_register`, two `switch` tables over the width tag
  and the index.  Both are `selectRegister` at their own count of 64-bit `FER` cases: eight for
  the reader, sixteen for the writer.
* `Target.get_target_content_in_u64bit_t` and `Target.set_target_content_in_u64bit_t`, which
  dispatch on `TargetType`; the writer narrows a memory store to the width, the reader always
  copies `sizeof(Value)` = 8 bytes.

The main result is `register_file_access`, the register-file laws of the two tables: they agree
on every register but `FER8`–`FER15`, which only the writer has, and neither has the base
registers.  The memory laws are `set_target_content_memory` (a store writes exactly its `w/8`
bytes) and `get_target_content_memory` (a load reads eight).
-/

namespace Sysdarft

/-- The indices `cpu.h` reserves for the control registers inside the 64-bit class.  `cpu.h` is
not in the sources and the spec fixes no values, only that they "occupy indices ≥ 0x10"; two
`case` labels of one `switch` cannot be equal, so they are distinct. -/
structure ControlRegisterIndex where
  R_StackBase : BitVec 8
  R_StackPointer : BitVec 8
  R_CodeBase : BitVec 8
  R_DataBase : BitVec 8
  R_DataPointer : BitVec 8
  R_ExtendedSegmentBase : BitVec 8
  R_ExtendedSegmentPointer : BitVec 8
  above : ∀ i ∈ [R_StackBase, R_StackPointer, R_CodeBase, R_DataBase, R_DataPointer,
    R_ExtendedSegmentBase, R_ExtendedSegmentPointer], 0x10 ≤ i.toNat
  distinct : [R_StackBase, R_StackPointer, R_CodeBase, R_DataBase, R_DataPointer,
    R_ExtendedSegmentBase, R_ExtendedSegmentPointer].Nodup

/-- One admissible choice of the control-register indices, `0x10` to `0x16` in the spec's
order, for runs on concrete states. -/
def ControlRegisterIndex.sample : ControlRegisterIndex :=
  ⟨0x10, 0x11, 0x12, 0x13, 0x14, 0x15, 0x16, by simp, by decide⟩

/-- The three kinds of target (`TargetType`). -/
inductive TargetType
  | TypeRegister
  | TypeConstant
  | TypeMemory
  deriving DecidableEq, Repr

/-- `processor::Target`, less its reference to the processor, which is `Exec`'s state. -/
structure Target where
  TargetType : TargetType
  TargetWidth : BitVec 8
  RegisterIndex : BitVec 8
  ConstantValue : BitVec 64
  MemoryAddress : BitVec 64
  literal : String

/-- The exception `__illegal_instruction_assert__(Expression)` throws at `line` of
`function`. -/
def assertionFailed (line : Nat) (function expression : String) : IllegalInstruction :=
  ⟨"Assertion failed during instruction decoding at " ++
    "src/sysdarft_processor/cpu/real_mode_target_access.cpp:" ++ toString line ++ ": " ++
    function ++ ": " ++ expression⟩

/-- `__illegal_instruction_assert__(Expression)`. -/
def illegalInstructionAssert (cond : Bool) (line : Nat) (function expression : String) :
    Exec Unit :=
  if cond then pure () else throw (assertionFailed line function expression)

/-! ### The register tables -/

variable (ci : ControlRegisterIndex)

/-- One `switch (TargetInformation.RegisterIndex)` of an 8-, 16- or 32-bit class: the cases
`0x00` to `0x07`, the slots `slot 0` to `slot 7`. -/
def narrowClass (slot : Fin 8 → RegisterName) (index : BitVec 8) : Option RegisterName :=
  if h : index.toNat < 8 then some (slot ⟨index.toNat, h⟩) else none

/-- The `switch (TargetInformation.RegisterIndex)` of the 64-bit class: `FER0` up to
`FER(fullyExtended - 1)`, then `R_StackPointer`, `R_DataPointer`, `R_ExtendedSegmentPointer`. -/
def fullyExtendedClass (fullyExtended : Nat) (index : BitVec 8) : Option RegisterName :=
  if h : index.toNat < 16 ∧ index.toNat < fullyExtended then
    some (.FullyExtendedRegister ⟨index.toNat, h.1⟩)
  else if index = ci.R_StackPointer then some .StackPointer
  else if index = ci.R_DataPointer then some .DataPointer
  else if index = ci.R_ExtendedSegmentPointer then some .ExtendedSegmentPointer
  else none

/-- The slot `switch (TargetWidth)` and then `switch (TargetInformation.RegisterIndex)` select;
`none` is a `default:` case. -/
def selectRegister (fullyExtended : Nat) (width index : BitVec 8) : Option RegisterName :=
  if width = 0x08 then narrowClass .R index
  else if width = 0x16 then narrowClass .ExtendedRegister index
  else if width = 0x32 then narrowClass .HalfExtendedRegister index
  else if width = 0x64 then fullyExtendedClass ci fullyExtended index
  else none

/-- The line of the `default: __illegal_instruction_assert__(false)` a failed table lookup
reaches: the inner `switch`'s for a known width, the outer one's otherwise. -/
def defaultLine (lines : List (BitVec 8 × Nat)) (outer : Nat) (width : BitVec 8) : Nat :=
  ((lines.find? (·.1 = width)).map (·.2)).getD outer

/-- `Target::do_get_register`. -/
def Target.do_get_register (t : Target) : Exec (BitVec 64) := fun s =>
  match selectRegister ci 8 t.TargetWidth t.RegisterIndex with
  | some r => .ok (s.Registers.get r) s
  | none => .error (assertionFailed (defaultLine [(0x08, 103), (0x16, 115), (0x32, 127),
      (0x64, 143)] 145 t.TargetWidth) "do_get_register" "false") s

/-- `Target::do_set_register`. -/
def Target.do_set_register (t : Target) (reg : BitVec 64) : Exec Unit := fun s =>
  match selectRegister ci 16 t.TargetWidth t.RegisterIndex with
  | some r => .ok () { s with Registers := s.Registers.set r reg }
  | none => .error (assertionFailed (defaultLine [(0x08, 163), (0x16, 175), (0x32, 187),
      (0x64, 211)] 213 t.TargetWidth) "do_set_register" "false") s

/-! ### Memory access -/

/-- `processor::get_memory(address, buffer, length)`. Modelled from the spec: `cpu.h` is not in
the sources; "reads and writes pass `(address, buffer, length)`" and touch "`length`
consecutive bytes in little-endian order". -/
def get_memory (address : BitVec 64) (length : Nat) : Exec (List (BitVec 8)) := fun s =>
  .ok (s.Memory.read address length) s

/-- `processor::write_memory(address, buffer, length)`. Modelled from the spec, as `get_memory`. -/
def write_memory (address : BitVec 64) (buffer : List (BitVec 8)) : Exec Unit := fun s =>
  .ok () { s with Memory := s.Memory.write address buffer }

/-- `Target::set_target_content_in_u64bit_t`. -/
def Target.set_target_content_in_u64bit_t (t : Target) (val : BitVec 64) : Exec Unit := do
  let actual_width ← (if t.TargetWidth = 0x08 then pure 1
    else if t.TargetWidth = 0x16 then pure 2
    else if t.TargetWidth = 0x32 then pure 4
    else if t.TargetWidth = 0x64 then pure 8
    else throw (assertionFailed 225 "set_target_content_in_u64bit_t" "false") : Exec Nat)
  match t.TargetType with
  | .TypeRegister => t.do_set_register ci val
  | .TypeConstant => throw (assertionFailed 231 "set_target_content_in_u64bit_t" "false")
  | .TypeMemory => write_memory t.MemoryAddress (toBytesLE val.toNat actual_width)

/-- `Target::get_target_content_in_u64bit_t`. -/
def Target.get_target_content_in_u64bit_t (t : Target) : Exec (BitVec 64) :=
  match t.TargetType with
  | .TypeRegister => t.do_get_register ci
  | .TypeConstant => pure t.ConstantValue
  | .TypeMemory => do
    let Value ← get_memory t.MemoryAddress 8
    pure (BitVec.ofNat 64 (ofBytesLE Value))


/-! ### The register-file laws -/

/-- The width in bits a width tag labels (§3: "`0x16` labels a 16-bit field"). -/
def widthBits (w : BitVec 8) : Nat :=
  if w = 0x08 then 8 else if w = 0x16 then 16 else if w = 0x32 then 32 else 64

/-- The width tag and the index by which the ISA names a register (§3, §6): `R0`–`R7`,
`EXR0`–`EXR7`, `HER0`–`HER7` and `FER0`–`FER15` at their number in their class, the seven
control registers at their reserved indices in the 64-bit class. -/
def RegisterName.tag : RegisterName → BitVec 8 × BitVec 8
  | .R i => (0x08, BitVec.ofNat 8 i)
  | .ExtendedRegister i => (0x16, BitVec.ofNat 8 i)
  | .HalfExtendedRegister i => (0x32, BitVec.ofNat 8 i)
  | .FullyExtendedRegister i => (0x64, BitVec.ofNat 8 i)
  | .StackBase => (0x64, ci.R_StackBase)
  | .StackPointer => (0x64, ci.R_StackPointer)
  | .CodeBase => (0x64, ci.R_CodeBase)
  | .DataBase => (0x64, ci.R_DataBase)
  | .DataPointer => (0x64, ci.R_DataPointer)
  | .ExtendedSegmentBase => (0x64, ci.R_ExtendedSegmentBase)
  | .ExtendedSegmentPointer => (0x64, ci.R_ExtendedSegmentPointer)

/-- The base registers `SB`, `CB`, `DB`, `EB`. -/
def RegisterName.IsBase (r : RegisterName) : Prop :=
  r = .StackBase ∨ r = .CodeBase ∨ r = .DataBase ∨ r = .ExtendedSegmentBase

/-- `FER8`–`FER15`. -/
def RegisterName.IsUpperFullyExtended (r : RegisterName) : Prop :=
  ∃ i : Fin 16, 8 ≤ i.val ∧ r = .FullyExtendedRegister i

theorem ControlRegisterIndex.sixteen_le :
    16 ≤ ci.R_StackBase.toNat ∧ 16 ≤ ci.R_StackPointer.toNat ∧ 16 ≤ ci.R_CodeBase.toNat ∧
    16 ≤ ci.R_DataBase.toNat ∧ 16 ≤ ci.R_DataPointer.toNat ∧
    16 ≤ ci.R_ExtendedSegmentBase.toNat ∧ 16 ≤ ci.R_ExtendedSegmentPointer.toNat := by
  simpa using ci.above

theorem ControlRegisterIndex.pointers_ne :
    ci.R_DataPointer ≠ ci.R_StackPointer ∧ ci.R_ExtendedSegmentPointer ≠ ci.R_StackPointer ∧
    ci.R_ExtendedSegmentPointer ≠ ci.R_DataPointer := by
  have := ci.distinct
  refine ⟨?_, ?_, ?_⟩ <;> intro h <;> simp [h] at this

theorem ofNat_toNat_eight (i : BitVec 8) : BitVec.ofNat 8 i.toNat = i := by
  simp only [BitVec.ofNat_toNat, BitVec.setWidth_eq]

theorem toNat_ofNat_fin {k : Nat} (i : Fin k) (hk : k ≤ 256) :
    (BitVec.ofNat 8 i.val).toNat = i.val :=
  Nat.mod_eq_of_lt (by have := i.isLt; omega)

theorem narrowClass_eq_some {slot : Fin 8 → RegisterName} {index : BitVec 8} {r : RegisterName}
    (h : narrowClass slot index = some r) :
    ∃ j : Fin 8, r = slot j ∧ index = BitVec.ofNat 8 j := by
  unfold narrowClass at h
  split at h
  · exact ⟨_, (Option.some_inj.mp h).symm, (ofNat_toNat_eight index).symm⟩
  · cases h

theorem fullyExtendedClass_eq_some {n : Nat} {index : BitVec 8} {r : RegisterName}
    (h : fullyExtendedClass ci n index = some r) :
    (0x64, index) = r.tag ci ∧ ¬ r.IsBase ∧
      ∀ j : Fin 16, r = .FullyExtendedRegister j → j.val < n := by
  unfold fullyExtendedClass at h
  split_ifs at h <;> cases h <;> simp [RegisterName.tag, RegisterName.IsBase, ofNat_toNat_eight, *]

/-- A slot a table selects is the register its width and index name, and no base register. -/
theorem tag_of_selectRegister {n : Nat} {w i : BitVec 8} {r : RegisterName}
    (h : selectRegister ci n w i = some r) :
    (w, i) = r.tag ci ∧ ¬ r.IsBase ∧ ∀ j : Fin 16, r = .FullyExtendedRegister j → j.val < n := by
  unfold selectRegister at h
  split_ifs at h with h8 h16 h32 h64
  all_goals first
    | obtain ⟨j, rfl, rfl⟩ := narrowClass_eq_some h
      simp [RegisterName.tag, RegisterName.IsBase, *]
    | subst h64; exact fullyExtendedClass_eq_some ci h

/-- Every register but a base one, and an `FER` past the table's count, is selected at its
name. -/
theorem selectRegister_tag {n : Nat} {w i : BitVec 8} {r : RegisterName}
    (htag : (w, i) = r.tag ci) (hr : ¬ r.IsBase)
    (hn : ∀ j : Fin 16, r = .FullyExtendedRegister j → j.val < n) :
    selectRegister ci n w i = some r := by
  obtain ⟨rfl, rfl⟩ := Prod.ext_iff.mp htag
  obtain ⟨-, hSP, -, -, hDP, -, hEP⟩ := ci.sixteen_le
  obtain ⟨h1, h2, h3⟩ := ci.pointers_ne
  cases r with
  | R i | ExtendedRegister i | HalfExtendedRegister i =>
    simp [selectRegister, narrowClass, RegisterName.tag, toNat_ofNat_fin i (by omega)]
  | FullyExtendedRegister i =>
    simp [selectRegister, fullyExtendedClass, RegisterName.tag, toNat_ofNat_fin i (by omega),
      hn i rfl]
  | StackPointer => simp [selectRegister, fullyExtendedClass, RegisterName.tag]; omega
  | DataPointer => simp [selectRegister, fullyExtendedClass, RegisterName.tag, h1]; omega
  | ExtendedSegmentPointer =>
    simp [selectRegister, fullyExtendedClass, RegisterName.tag, h2, h3]; omega
  | _ => simp [RegisterName.IsBase] at hr

/-- What the reader's table selects, the writer's selects too. -/
theorem selectRegister_sixteen_of_eight {w i : BitVec 8} {r : RegisterName}
    (h : selectRegister ci 8 w i = some r) : selectRegister ci 16 w i = some r := by
  obtain ⟨htag, hbase, hn⟩ := tag_of_selectRegister ci h
  exact selectRegister_tag ci htag hbase fun j hj => by have := hn j hj; omega

theorem RegisterName.bits_eq_widthBits (r : RegisterName) : r.bits = widthBits (r.tag ci).1 := by
  cases r <;> rfl

/-- At the width tag and index of a register other than a base one and `FER8`–`FER15`, both
accessors reach that register. -/
theorem Target.register_access_at (s : Processor) (t : Target) (x : BitVec 64) {r : RegisterName}
    (hb : ¬ r.IsBase) (hu : ¬ r.IsUpperFullyExtended)
    (htag : (t.TargetWidth, t.RegisterIndex) = r.tag ci) :
    (t.do_get_register ci).run s = .ok (s.Registers.get r) s ∧
      (t.do_set_register ci x).run s = .ok () { s with Registers := s.Registers.set r x } := by
  have hlt : ∀ n, 8 ≤ n → ∀ j : Fin 16, r = .FullyExtendedRegister j → j.val < n :=
    fun n hn j hj => by
      by_contra hj'
      exact hu ⟨j, by omega, hj⟩
  simp only [run_eq_apply, Target.do_get_register, Target.do_set_register,
    selectRegister_tag ci htag hb (hlt 8 le_rfl), selectRegister_tag ci htag hb (hlt 16 (by omega)),
    and_self]

theorem ofNat_fin_sixteen_ne (j : Fin 16) {c : BitVec 8} (hc : 16 ≤ c.toNat) :
    BitVec.ofNat 8 j ≠ c := fun h => by
  have := congrArg BitVec.toNat h
  rw [toNat_ofNat_fin j (by omega)] at this
  omega

/-- The two tables differ in one place: `FER8`–`FER15` are written but never read back. -/
theorem upper_fully_extended_write_only (s : Processor) (t : Target) (x : BitVec 64)
    (r : RegisterName) (hr : r.IsUpperFullyExtended)
    (htag : (t.TargetWidth, t.RegisterIndex) = r.tag ci) :
    (∃ e, (t.do_get_register ci).run s = .error e s) ∧
    (t.do_set_register ci x).run s = .ok () { s with Registers := s.Registers.set r x } := by
  obtain ⟨j, hj, rfl⟩ := hr
  obtain ⟨hw, hi⟩ := Prod.ext_iff.mp htag
  obtain ⟨-, hSP, -, -, hDP, -, hEP⟩ := ci.sixteen_le
  have hget : selectRegister ci 8 t.TargetWidth t.RegisterIndex = none := by
    simp only [RegisterName.tag] at hw hi
    simp [selectRegister, fullyExtendedClass, hw, hi, toNat_ofNat_fin j (by omega),
      ofNat_fin_sixteen_ne j hSP, ofNat_fin_sixteen_ne j hDP, ofNat_fin_sixteen_ne j hEP, hj]
  have hset := selectRegister_tag ci (n := 16) htag (by simp [RegisterName.IsBase])
    fun j' h => by cases h; exact j.isLt
  simp only [run_eq_apply, Target.do_get_register, Target.do_set_register, hget, hset]
  exact ⟨⟨_, rfl⟩, trivial⟩

/-- A base register shares its width tag and index with no other register. -/
theorem RegisterName.tag_ne_of_isBase {r r' : RegisterName} (hr : r.IsBase) (hr' : ¬ r'.IsBase) :
    r.tag ci ≠ r'.tag ci := by
  have hd := ci.distinct
  simp only [List.nodup_cons, List.mem_cons, List.mem_singleton, not_or, List.not_mem_nil,
    not_false_eq_true, List.nodup_nil, and_true] at hd
  obtain ⟨⟨_, _, _, _, _, _⟩, ⟨_, _, _, _, _⟩, ⟨_, _, _, _⟩, ⟨_, _, _⟩, ⟨_, _⟩, _⟩ := hd
  obtain ⟨hSB, -, hCB, hDB, -, hEB, -⟩ := ci.sixteen_le
  intro h
  obtain ⟨hw, hi⟩ := Prod.ext_iff.mp h
  rcases hr with rfl | rfl | rfl | rfl <;> cases r' <;> dsimp only [RegisterName.tag] at hw hi <;>
    first
    | exact absurd hw (by decide)
    | exact ofNat_fin_sixteen_ne _ (by assumption) hi.symm
    | (apply absurd hi; assumption)
    | (apply absurd hi.symm; assumption)
    | exact hr' (by simp only [RegisterName.IsBase, true_or, or_true])

/-- The register-file laws of `do_get_register` and `do_set_register`.  Every register except
the base registers `SB`, `CB`, `DB`, `EB` and the upper `FER8`–`FER15` is read and written at its
width tag and index; `FER8`–`FER15` are written there but not read; a pair that names no
register, or a base register, fails in both; and a successful write is read back modulo the
width, when the read succeeds, and touches no other register. -/
theorem register_file_access (s : Processor) (t : Target) (x : BitVec 64) :
    (∀ r : RegisterName, ¬ r.IsBase → ¬ r.IsUpperFullyExtended →
      (t.TargetWidth, t.RegisterIndex) = r.tag ci →
      (t.do_get_register ci).run s = .ok (s.Registers.get r) s ∧
      (t.do_set_register ci x).run s = .ok () { s with Registers := s.Registers.set r x }) ∧
    (∀ r : RegisterName, r.IsUpperFullyExtended → (t.TargetWidth, t.RegisterIndex) = r.tag ci →
      (∃ e, (t.do_get_register ci).run s = .error e s) ∧
      (t.do_set_register ci x).run s = .ok () { s with Registers := s.Registers.set r x }) ∧
    ((∀ r : RegisterName, (t.TargetWidth, t.RegisterIndex) = r.tag ci → r.IsBase) →
      (∃ e, (t.do_get_register ci).run s = .error e s) ∧
      ∃ e, (t.do_set_register ci x).run s = .error e s) ∧
    (∀ r : RegisterName, r.IsBase → (t.TargetWidth, t.RegisterIndex) = r.tag ci →
      (∃ e, (t.do_get_register ci).run s = .error e s) ∧
      ∃ e, (t.do_set_register ci x).run s = .error e s) ∧
    (∀ s', (t.do_set_register ci x).run s = .ok () s' →
      (∀ v s'', (t.do_get_register ci).run s' = .ok v s'' →
        v.toNat = x.toNat % 2 ^ widthBits t.TargetWidth) ∧
      ∃ r, (t.TargetWidth, t.RegisterIndex) = r.tag ci ∧
        s' = { s with Registers := s.Registers.set r x } ∧
        ∀ r', r' ≠ r → s'.Registers.get r' = s.Registers.get r') := by
  have hnamed : (∀ r : RegisterName, (t.TargetWidth, t.RegisterIndex) = r.tag ci → r.IsBase) →
      (∃ e, (t.do_get_register ci).run s = .error e s) ∧
      ∃ e, (t.do_set_register ci x).run s = .error e s := fun hbase => by
    have hnone : ∀ n, selectRegister ci n t.TargetWidth t.RegisterIndex = none := by
      intro n
      by_contra h
      obtain ⟨r, hr⟩ := Option.ne_none_iff_exists'.mp h
      obtain ⟨htag, hb, -⟩ := tag_of_selectRegister ci hr
      exact hb (hbase r htag)
    simp only [run_eq_apply, Target.do_get_register, Target.do_set_register, hnone]
    exact ⟨⟨_, rfl⟩, ⟨_, rfl⟩⟩
  refine ⟨fun r hb hu htag => t.register_access_at ci s x hb hu htag,
    fun r hr htag => upper_fully_extended_write_only ci s t x r hr htag, hnamed,
    fun r hr htag => hnamed fun r' htag' => ?_, fun s' hset => ?_⟩
  · by_contra hr'
    exact RegisterName.tag_ne_of_isBase ci hr hr' (htag.symm.trans htag')
  · simp only [run_eq_apply, Target.do_set_register] at hset
    split at hset
    · rename_i r hr
      cases hset
      obtain ⟨htag, -, -⟩ := tag_of_selectRegister ci hr
      refine ⟨fun v s'' hget => ?_, r, htag, rfl, fun r' hr' => Registers.get_set_of_ne _ _ hr'⟩
      simp only [run_eq_apply, Target.do_get_register] at hget
      split at hget
      · rename_i r' hr'
        cases hget
        have := selectRegister_sixteen_of_eight ci hr'
        rw [hr] at this
        cases this
        rw [Registers.get_set_self, RegisterName.bits_eq_widthBits ci, ← htag]
      · cases hget
    · cases hset

/-- `FER14`, which `test.decode.cpp` uses, is written at `64 0E` but not read back, and at the
stack base's index `0x10` both accessors throw. -/
theorem register_file_access_fer_fourteen_stack_base :
    ((∃ e, (Target.do_get_register .sample ⟨.TypeRegister, 0x64, 0x0E, 0, 0, ""⟩).run
        (Processor.load []) = .error e (Processor.load [])) ∧
      (Target.do_set_register .sample ⟨.TypeRegister, 0x64, 0x0E, 0, 0, ""⟩ 1).run
        (Processor.load []) = .ok () { Processor.load [] with
          Registers := (Processor.load []).Registers.set (.FullyExtendedRegister 14) 1 }) ∧
    ((∃ e, (Target.do_get_register .sample ⟨.TypeRegister, 0x64, 0x10, 0, 0, ""⟩).run
        (Processor.load []) = .error e (Processor.load [])) ∧
      ∃ e, (Target.do_set_register .sample ⟨.TypeRegister, 0x64, 0x10, 0, 0, ""⟩ 1).run
        (Processor.load []) = .error e (Processor.load [])) :=
  ⟨(register_file_access .sample (Processor.load []) _ 1).2.1 (.FullyExtendedRegister 14)
      ⟨14, by decide, rfl⟩ rfl,
    (register_file_access .sample (Processor.load []) _ 1).2.2.2.1 .StackBase (.inl rfl) rfl⟩

/-- Every register is named in one of the four width classes. -/
theorem RegisterName.tag_width (r : RegisterName) :
    (r.tag ci).1 = 0x08 ∨ (r.tag ci).1 = 0x16 ∨ (r.tag ci).1 = 0x32 ∨ (r.tag ci).1 = 0x64 := by
  cases r <;> simp [RegisterName.tag]

/-- A load from a register target is `do_get_register`. -/
theorem get_target_content_register (t : Target) (ht : t.TargetType = .TypeRegister) :
    t.get_target_content_in_u64bit_t ci = t.do_get_register ci := by
  simp only [Target.get_target_content_in_u64bit_t, ht]

/-- A store to a register target of a known width is `do_set_register`. -/
theorem set_target_content_register (s : Processor) (t : Target) (val : BitVec 64)
    (ht : t.TargetType = .TypeRegister)
    (hw : t.TargetWidth = 0x08 ∨ t.TargetWidth = 0x16 ∨ t.TargetWidth = 0x32 ∨ t.TargetWidth = 0x64) :
    (t.set_target_content_in_u64bit_t ci val).run s = (t.do_set_register ci val).run s := by
  rcases hw with hw | hw | hw | hw <;> simp [Target.set_target_content_in_u64bit_t, hw, ht]

/-! ### Memory targets -/

/-- A store to a memory target writes the low `w/8` bytes of the value, little-endian, from
`MemoryAddress` on, and nothing else. -/
theorem set_target_content_memory (s : Processor) (t : Target) (val : BitVec 64)
    (ht : t.TargetType = .TypeMemory)
    (hw : t.TargetWidth = 0x08 ∨ t.TargetWidth = 0x16 ∨ t.TargetWidth = 0x32 ∨ t.TargetWidth = 0x64) :
    (t.set_target_content_in_u64bit_t ci val).run s =
      .ok () { s with
        Memory := s.Memory.write t.MemoryAddress (toBytesLE val.toNat (widthBits t.TargetWidth / 8)) } := by
  rcases hw with hw | hw | hw | hw <;>
    simp [Target.set_target_content_in_u64bit_t, hw, ht, widthBits, write_memory] <;> rfl

/-- A load from a memory target reads eight bytes from `MemoryAddress`, whatever its width. -/
theorem get_target_content_memory (s : Processor) (t : Target) (ht : t.TargetType = .TypeMemory) :
    (t.get_target_content_in_u64bit_t ci).run s =
      .ok (BitVec.ofNat 64 (ofBytesLE (s.Memory.read t.MemoryAddress 8))) s := by
  simp only [Target.get_target_content_in_u64bit_t, ht]
  rfl

/-! ### What the accessors leave alone -/

theorem illegalInstructionAssert_readsOnly (cond : Bool) (line : Nat) (function expression : String) :
    (illegalInstructionAssert cond line function expression).ReadsOnly := by
  unfold illegalInstructionAssert
  split
  · exact Exec.readsOnly_pure _
  · exact Exec.readsOnly_throw _

theorem Target.do_get_register_readsOnly (t : Target) : (t.do_get_register ci).ReadsOnly := by
  intro s
  simp only [run_eq_apply, Target.do_get_register]
  split <;> exact ⟨rfl, rfl⟩

theorem Target.get_target_content_readsOnly (t : Target) :
    (t.get_target_content_in_u64bit_t ci).ReadsOnly := by
  unfold Target.get_target_content_in_u64bit_t
  split
  · exact t.do_get_register_readsOnly ci
  · exact Exec.readsOnly_pure _
  · exact Exec.ReadsOnly.bind (fun _ => ⟨rfl, rfl⟩) fun _ => Exec.readsOnly_pure _

/-- A store that throws has stored nothing. -/
theorem Target.set_target_content_keepsOnError (t : Target) (val : BitVec 64) :
    (t.set_target_content_in_u64bit_t ci val).KeepsOnError := by
  unfold Target.set_target_content_in_u64bit_t
  refine Exec.KeepsOnError.bind ?_ fun w => ?_
  · split_ifs <;> first | exact Exec.readsOnly_pure _ | exact Exec.readsOnly_throw _
  · intro s e s' h
    split at h
    · simp only [run_eq_apply, Target.do_set_register] at h
      split at h
      · cases h
      · cases h; exact ⟨rfl, rfl⟩
    · cases h; exact ⟨rfl, rfl⟩
    · cases h

/-- A one-byte memory target at address 0, over memory holding `0x00 0xFF`: storing 0 and
loading gives `0xFF00`, the neighbouring byte included. -/
theorem narrow_load_reads_neighbour :
    Exec.value? ((do
      Target.set_target_content_in_u64bit_t ci ⟨.TypeMemory, 0x08, 0, 0, 0, ""⟩ 0
      Target.get_target_content_in_u64bit_t ci ⟨.TypeMemory, 0x08, 0, 0, 0, ""⟩).run
        (Processor.load [0x00, 0xFF])) = some 0xFF00 := rfl

end Sysdarft
