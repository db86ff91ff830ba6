import Sysdarft.Processor.Machine
import Sysdarft.Assembler.RoundTrip

/-!
# Trace — the operand texts the processor prints, read by the assembler

`add` prints its operands in its trace line by the text each `Target` keeps in `literal`.  The
decoder builds that text from the operand's bytes (`CpuOperand.literal`) and the constructor
puts it between angle brackets (`Target.read_of_construct`).  The text is written in the
assembler's operand syntax, but the two sides do not name the same operands, and their layouts
differ: `encode_target` reads the text as the assembler's operand that names the same
registers, value, or ratio and sub-operands (`CpuOperand.wire`), when there is one.

* `construct_literal_reassembles`: whenever `Target::Target` returns, its `literal` is the text
  of the operand it read between angle brackets.  `encode_target` on that text writes bytes
  exactly when the assembler has an operand naming the same thing, and then writes that
  operand's bytes: a register of one of the four classes with an index below 8, any constant
  (with the sign byte `00`), or a memory operand with a ratio of 1, 2, 4, 8 or 16 whose
  sub-operands are `FER0`–`FER7` or constants.  The text of an `XMM` register, of
  `FER8`–`FER15`, or of a ratio byte such as `0x16` is refused.
* `Instruction.log_shows`: the log can be read back.  Two lists of instructions print the same
  lines exactly when they agree, in order, on which instructions are `NOP` and which `ADD`, and
  on the texts of each `ADD`'s operands (`Instruction.shown`): an operand's text holds no `>`,
  so the line ends it at the first one.  An unknown opcode prints nothing, and the width byte
  of an `ADD` is not printed.
-/

namespace Sysdarft

/-! ### The operand the assembler names -/

/-- The class of the assembler's registers whose width tag is `w`. -/
def RegisterClass.ofTag (w : BitVec 8) : Option RegisterClass :=
  if w = 0x08 then some .R else if w = 0x16 then some .EXR else if w = 0x32 then some .HER
  else if w = 0x64 then some .FER else none

/-- The ratio the assembler writes as the decimal number `r`. -/
def Ratio.ofByte (r : BitVec 8) : Option Ratio :=
  if r = 1 then some .one else if r = 2 then some .two else if r = 4 then some .four
  else if r = 8 then some .eight else if r = 16 then some .sixteen else none

/-- The assembler's sub-operand naming the same register or value: a `FER` below 8, or the
constant with sign byte `00`. -/
def CpuSub.wire : CpuSub → Option SubOperand
  | .register w i => if w = 0x64 ∧ i.toNat < 8 then some (.register ⟨.FER, i⟩) else none
  | .constant v => some (.constant ⟨0x00, v⟩)

/-- The assembler's operand naming the same register, the same value, or the same ratio and
sub-operands; a memory operand's width has no place in it. -/
def CpuOperand.wire : CpuOperand → Option WireTarget
  | .register w i => (RegisterClass.ofTag w).bind fun cls =>
    if i.toNat < 8 then some (.register ⟨cls, i⟩) else none
  | .constant v => some (.constant ⟨0x00, v⟩)
  | .memory _ b o1 o2 r => do
    let ratio ← Ratio.ofByte r
    let base ← b.wire
    let off1 ← o1.wire
    let off2 ← o2.wire
    pure (.memory ratio base off1 off2)

/-! ### The processor's texts in the assembler's grammar -/

/-- Two lists that agree up to their first element with property `p` agree before it and
after it. -/
theorem append_cons_inj {α : Type} {p : α → Prop} {P Q D E : List α} {d e : α}
    (hP : ∀ c ∈ P, ¬p c) (hQ : ∀ c ∈ Q, ¬p c) (hd : p d) (he : p e)
    (h : P ++ d :: D = Q ++ e :: E) : P = Q ∧ d = e ∧ D = E := by
  induction P generalizing Q with
  | nil =>
    cases Q with
    | nil => simpa using h
    | cons q Q => exact absurd ((List.cons.inj h).1 ▸ hd) (hQ q (.head _))
  | cons c P ih =>
    cases Q with
    | nil => exact absurd ((List.cons.inj h).1 ▸ he) (hP c (.head _))
    | cons q Q =>
      obtain ⟨rfl, h'⟩ := List.cons.inj h
      obtain ⟨rfl, rfl, rfl⟩ :=
        ih (fun x hx => hP x (.tail _ hx)) (fun x hx => hQ x (.tail _ hx)) h'
      exact ⟨rfl, rfl, rfl⟩

/-- A number's decimal digits determine it. -/
theorem toString_data_injective {n m : Nat} (h : (toString n).data = (toString m).data) :
    n = m :=
  calc n = scanDigits 10 (Nat.toDigits 10 n) 0 :=
        ((scanDigits_toDigits (b := 10) (by decide) (by decide) n).2).symm
    _ = scanDigits 10 (Nat.toDigits 10 m) 0 := congrArg (scanDigits 10 · 0) h
    _ = m := (scanDigits_toDigits (b := 10) (by decide) (by decide) m).2

theorem toString_data_cons (n : Nat) :
    ∃ d D, (toString n).data = d :: D ∧ d ∈ decimalDigits := by
  obtain ⟨d, D, hD⟩ := List.exists_cons_of_ne_nil (toDigits_ne_nil 10 n (by decide))
  exact ⟨d, D, hD, mem_toDigits_ten (hD ▸ List.mem_cons_self d D)⟩

/-- A width tag's name is its class's name, or `%XMM` for a tag of no class. -/
theorem literalPrefix_eq (w : BitVec 8) :
    literalPrefix w = match RegisterClass.ofTag w with
      | some cls => cls.name
      | none => "%XMM" := by
  unfold literalPrefix RegisterClass.ofTag
  split_ifs <;> rfl

theorem RegisterClass.name_not_digit (cls : RegisterClass) :
    ∀ c ∈ cls.name.data, c ∉ decimalDigits := by
  cases cls <;> decide

theorem RegisterClass.name_injective : Function.Injective RegisterClass.name := by
  intro a b
  cases a <;> cases b <;> decide

theorem literalPrefix_not_digit (w : BitVec 8) :
    ∀ c ∈ (literalPrefix w).data, c ∉ decimalDigits := by
  rw [literalPrefix_eq]
  split
  · exact RegisterClass.name_not_digit _
  · decide

theorem literalPrefix_plain (w : BitVec 8) : ∀ c ∈ (literalPrefix w).data, Plain c := by
  rw [literalPrefix_eq]
  split
  · exact RegisterClass.plain_name _
  · decide

theorem literalPrefix_of_ofTag {w : BitVec 8} {cls : RegisterClass}
    (h : RegisterClass.ofTag w = some cls) : literalPrefix w = cls.name := by
  rw [literalPrefix_eq, h]

theorem ofTag_of_literalPrefix {w : BitVec 8} {cls : RegisterClass}
    (h : literalPrefix w = cls.name) : RegisterClass.ofTag w = some cls := by
  rw [literalPrefix_eq] at h
  split at h
  · next cls' hcls => rw [hcls, RegisterClass.name_injective h]
  · cases cls <;> exact absurd h (by decide)

/-- The text of a register names one of the assembler's exactly when its width tag is a
class's and its index is below 8. -/
theorem is_valid_register_literal (w i : BitVec 8) :
    is_valid_register ((literalPrefix w).data ++ (toString i.toNat).data) ↔
      ∃ cls, RegisterClass.ofTag w = some cls ∧ i.toNat < 8 := by
  rw [is_valid_register_iff]
  constructor
  · rintro ⟨r, hr, htext⟩
    rw [WireRegister.text, String.data_append] at htext
    obtain ⟨d, D, hD, hd⟩ := toString_data_cons i.toNat
    obtain ⟨e, E, hE, he⟩ := toString_data_cons r.index.toNat
    rw [hD, hE] at htext
    obtain ⟨hpre, rfl, rfl⟩ := append_cons_inj (p := (· ∈ decimalDigits))
      (literalPrefix_not_digit w) r.cls.name_not_digit hd he htext
    have hi : i.toNat = r.index.toNat := toString_data_injective (hD.trans hE.symm)
    exact ⟨r.cls, ofTag_of_literalPrefix (congrArg String.mk hpre), by rw [hi]; exact hr⟩
  · rintro ⟨cls, hcls, hi⟩
    exact ⟨⟨cls, i⟩, hi,
      by rw [WireRegister.text, String.data_append, literalPrefix_of_ofTag hcls]⟩

/-- `memory_pattern`'s ratio group, on a text whose first parenthesis follows `D`: `D` is the
text of a ratio. -/
theorem memoryRatio_eq_some_paren {D body ratio rest : List Char} (hD : '(' ∉ D)
    (h : memoryRatio (D ++ '(' :: body) = some (ratio, rest)) : ∃ r : Ratio, D = r.text.data := by
  obtain ⟨r, -, hs⟩ := memoryRatio_eq_some h
  have hr : '(' ∉ r.text.data := by cases r <;> decide
  exact ⟨r, (append_cons_inj (p := (· = '(')) (fun c hc hc' => hD (hc' ▸ hc))
    (fun c hc hc' => hr (hc' ▸ hc)) rfl rfl hs).1⟩

theorem toString_ofByte {r : BitVec 8} {ratio : Ratio} (h : Ratio.ofByte r = some ratio) :
    (toString r.toNat).data = ratio.text.data := by
  unfold Ratio.ofByte at h
  split_ifs at h <;> cases h <;> subst_vars <;> rfl

/-- The ratio byte's decimal text passes `memory_pattern`'s ratio group exactly when it is the
text of a ratio. -/
theorem memoryRatio_literal (r : BitVec 8) (body : List Char) :
    memoryRatio ((toString r.toNat).data ++ '(' :: body) =
      (Ratio.ofByte r).map fun ratio => (ratio.text.data, body) := by
  cases hr : Ratio.ofByte r with
  | some ratio => rw [toString_ofByte hr, memoryRatio_text]; rfl
  | none =>
    cases hm : memoryRatio ((toString r.toNat).data ++ '(' :: body) with
    | none => rfl
    | some res =>
      obtain ⟨ratio, htext⟩ :=
        memoryRatio_eq_some_paren (fun h => absurd (mem_toDigits_ten h) (by decide)) hm
      have hnone (k : Nat) (h : (toString r.toNat).data = (toString k).data) :
          Ratio.ofByte (BitVec.ofNat 8 k) = none := by
        rwa [← toString_data_injective h, BitVec.ofNat_toNat, BitVec.setWidth_eq]
      cases ratio
      · exact absurd (hnone 1 htext) (by decide)
      · exact absurd (hnone 2 htext) (by decide)
      · exact absurd (hnone 4 htext) (by decide)
      · exact absurd (hnone 8 htext) (by decide)
      · exact absurd (hnone 16 htext) (by decide)

theorem CpuSub.plain_literal (p : CpuSub) : ∀ c ∈ p.literal.data, Plain c := by
  cases p with
  | register w i =>
    simp only [CpuSub.literal, String.data_append, List.mem_append]
    exact fun c hc => hc.elim (literalPrefix_plain w c) (plain_toString_int i.toNat c)
  | constant v =>
    simp only [CpuSub.literal, String.data_append, List.mem_append]
    rintro c ((hc | hc) | hc)
    · revert c; decide
    · exact plain_toString_int v.toNat c hc
    · revert c; decide

/-! ### What the encoder makes of the texts -/

/-- `x` appends `bs` to any vector when given `some bs`, and throws from any vector when given
`none`. -/
def Encode.Writes (x : Encode Unit) : Option (List (BitVec 8)) → Prop
  | some bs => ∀ buf, x.run buf = .ok () (buf ++ bs)
  | none => ∀ buf, ∃ e buf', x.run buf = .error e buf'

theorem Encode.Writes.bind {x y : Encode Unit} {o p : Option (List (BitVec 8))}
    (hx : x.Writes o) (hy : y.Writes p) :
    (x >>= fun _ => y).Writes (o.bind fun a => p.map (a ++ ·)) := by
  cases o with
  | none =>
    intro buf
    obtain ⟨e, buf', h⟩ := hx buf
    exact ⟨e, buf', run_bind_of_error h⟩
  | some a =>
    cases p with
    | none =>
      intro buf
      obtain ⟨e, buf', h⟩ := hy (buf ++ a)
      exact ⟨e, buf', by rw [run_bind_of_ok (hx buf), h]⟩
    | some b =>
      intro buf
      rw [run_bind_of_ok (hx buf), hy, List.append_assoc]

theorem Encode.Writes.shift {x y : Encode Unit} {pre : List (BitVec 8)}
    {o : Option (List (BitVec 8))} (h : ∀ buf, y.run buf = x.run (buf ++ pre)) (hx : x.Writes o) :
    y.Writes (o.map (pre ++ ·)) := by
  cases o with
  | none =>
    intro buf
    rw [h]
    exact hx _
  | some bs =>
    intro buf
    rw [h, hx, List.append_assoc]

theorem Encode.writes_throw (e : TargetExpressionError) : (throw e : Encode Unit).Writes none :=
  fun buf => ⟨e, buf, rfl⟩

/-- The decimal text of a 64-bit value, as a constant, is that value with sign byte `00`. -/
theorem encode_constant_literal (v : BitVec 64) :
    (encode_constant
      { ConstantExpression := '$' :: '(' :: ((toString v.toNat).data ++ [')'])
        TargetType := .CONSTANT }).Writes
      (some (CONSTANT_PREFIX :: (WireConstant.mk 0x00 v).payload)) := by
  intro buf
  have hdigit : ∀ c ∈ (toString v.toNat).data, c ∈ decimalDigits :=
    fun c hc => mem_toDigits_ten hc
  have hexp : process_base16 (toString v.toNat).data = (toString (v.toNat : Int)).data :=
    process_base16_of_no_x (fun h => absurd (hdigit _ h) (by decide))
      (fun h => absurd (hdigit _ h) (by decide))
  have hhead : (toString (v.toNat : Int)).data.head? ≠ some '-' :=
    fun h => absurd ((toString_int_head _).mp h) (by omega)
  rw [encode_constant_run rfl, hexp, bcEvaluate_toString]
  have hv : ((v.toNat : Int) % 2 ^ 64).toNat = v.toNat := by
    rw [Int.emod_eq_of_lt (by omega) (by exact_mod_cast v.isLt), Int.toNat_ofNat]
  simp only [constantResult_of_range _ (by omega : -2 ^ 63 ≤ (v.toNat : Int))
    (by exact_mod_cast v.isLt), WireConstant.payload, hv, hhead, and_false, if_false, ne_eq,
    not_false_eq_true, and_true, show ¬ (v.toNat : Int) < 0 by omega]

theorem literalPrefix_cons (w : BitVec 8) : ∃ rest, (literalPrefix w).data = '%' :: rest := by
  rw [literalPrefix_eq]
  split
  · next cls _ => cases cls <;> exact ⟨_, rfl⟩
  · exact ⟨_, rfl⟩

theorem ofTag_fer_iff {w : BitVec 8} : RegisterClass.ofTag w = some .FER ↔ w = 0x64 := by
  unfold RegisterClass.ofTag
  split_ifs <;> simp_all

theorem register_literal_text {w i : BitVec 8} {cls : RegisterClass}
    (h : RegisterClass.ofTag w = some cls) :
    (literalPrefix w).data ++ (toString i.toNat).data = (WireRegister.mk cls i).text.data := by
  rw [WireRegister.text, String.data_append, literalPrefix_of_ofTag h]

/-- `encode_each_parameter` on a sub-operand's text writes the assembler's sub-operand naming
the same register or value, and throws when there is none. -/
theorem encode_each_parameter_literal (p : CpuSub) :
    (encode_each_parameter p.literal.data).Writes (p.wire.map SubOperand.bytes) := by
  cases p with
  | register w i =>
    rw [show (CpuSub.register w i).literal.data =
      (literalPrefix w).data ++ (toString i.toNat).data from String.data_append _ _]
    by_cases hfer : RegisterClass.ofTag w = some .FER ∧ i.toNat < 8
    · have hw : w = 0x64 := ofTag_fer_iff.mp hfer.1
      have hr : (WireRegister.mk .FER i).Encodable := hfer.2
      rw [show (CpuSub.register w i).wire = some (.register ⟨.FER, i⟩) by
        simp [CpuSub.wire, hw, hfer.2], register_literal_text hfer.1]
      intro buf
      have hdrop : ((WireRegister.mk .FER i).text.data).dropLast = "%FER".data := by
        rw [WireRegister.text_data hr, List.dropLast_concat]; rfl
      simp only [encode_each_parameter, is_valid_register_iff.mpr ⟨_, hr, rfl⟩, hdrop, ne_eq,
        not_true_eq_false, if_true, if_false]
      exact encode_register_run hr rfl buf
    · rw [show (CpuSub.register w i).wire = none by
        simp only [CpuSub.wire, ← ofTag_fer_iff]; exact if_neg hfer]
      obtain ⟨pre, hpre⟩ := literalPrefix_cons w
      unfold encode_each_parameter
      split_ifs with hv hdrop hc
      · exact Encode.writes_throw _
      · obtain ⟨cls, hcls, hi⟩ := (is_valid_register_literal w i).mp hv
        rw [register_literal_text hcls, WireRegister.text_data (r := ⟨cls, i⟩) hi,
          List.dropLast_concat] at hdrop
        dsimp only at hdrop
        cases cls
        · exact absurd hdrop (by decide)
        · exact absurd hdrop (by decide)
        · exact absurd hdrop (by decide)
        · exact absurd ⟨hcls, hi⟩ hfer
      · rw [hpre, List.cons_append, is_valid_constant_cons (by decide)] at hc
        cases hc
      · exact Encode.writes_throw _
  | constant v =>
    have hdata :
        (CpuSub.constant v).literal.data = '$' :: '(' :: ((toString v.toNat).data ++ [')']) := by
      simp [CpuSub.literal]
    have hvalid : is_valid_constant (CpuSub.constant v).literal.data :=
      is_valid_constant_iff.mpr ⟨_, hdata, List.all_eq_true.mpr fun d hd =>
        ((CpuSub.plain_literal (.constant v)) d (by rw [hdata]; simp [hd])).2.2.1⟩
    simp only [encode_each_parameter, hdata, is_valid_register_cons (show '$' ≠ '%' by decide),
      Bool.false_eq_true, if_false]
    rw [← hdata, if_pos hvalid, hdata]
    exact encode_constant_literal v

/-- `parse` on a text that begins with `*` once cleaned up is `memory_pattern`'s match. -/
theorem parse_star {input s ratio base off1 off2 : List Char}
    (h : capitalization (remove_space input) = '*' :: s)
    (hm : memory_match ('*' :: s) = some (ratio, base, off1, off2)) :
    parse input =
      .ok { TargetType := .MEMORY, MemoryAccessRatio := ratio, MemoryBaseAddress := base,
            MemoryOffset1 := off1, MemoryOffset2 := off2 } := by
  simp only [parse, h, is_valid_register_cons (show '*' ≠ '%' by decide),
    is_valid_constant_cons (show '*' ≠ '$' by decide), Bool.false_eq_true, if_false, hm]

theorem parse_star_error {input s : List Char} (h : capitalization (remove_space input) = '*' :: s)
    (hm : memory_match ('*' :: s) = none) : ∃ e, parse input = .error e := by
  simp only [parse, h, is_valid_register_cons (show '*' ≠ '%' by decide),
    is_valid_constant_cons (show '*' ≠ '$' by decide), Bool.false_eq_true, if_false, hm]
  exact ⟨_, rfl⟩

/-- A memory operand's text loses its blanks and nothing else. -/
theorem clean_memory_literal (w : BitVec 8) (b o1 o2 : CpuSub) (r : BitVec 8) :
    capitalization (remove_space (CpuOperand.memory w b o1 o2 r).literal.data) =
      '*' :: ((toString r.toNat).data ++ '(' :: (b.literal.data ++ ',' :: (o1.literal.data ++
        ',' :: (o2.literal.data ++ [')'])))) := by
  have hratio : ∀ c ∈ (toString r.toNat).data, Plain c := plain_toString_int r.toNat
  simp only [CpuOperand.literal, String.data_append, remove_space_append, capitalization_append,
    clean_of_plain b.plain_literal, clean_of_plain o1.plain_literal,
    clean_of_plain o2.plain_literal, clean_of_plain hratio, List.append_assoc]
  rfl

/-- The bytes of the assembler's memory operand naming the same ratio and sub-operands. -/
theorem wire_memory_bytes (w : BitVec 8) (b o1 o2 : CpuSub) {r : BitVec 8} {ratio : Ratio}
    (hr : Ratio.ofByte r = some ratio) :
    (CpuOperand.memory w b o1 o2 r).wire.map WireTarget.bytes =
      (((b.wire.map SubOperand.bytes).bind fun a => ((o1.wire.map SubOperand.bytes).bind
        fun c => (o2.wire.map SubOperand.bytes).map (c ++ ·)).map (a ++ ·))).map
          ([MEMORY_PREFIX, ratio.code] ++ ·) := by
  cases hb : b.wire <;> cases h1 : o1.wire <;> cases h2 : o2.wire <;>
    simp [CpuOperand.wire, hr, hb, h1, h2, WireTarget.bytes]

/-- `encode_target` on the text of any operand of the processor's writes the bytes of the
assembler's operand naming the same thing, and throws when there is none. -/
theorem encode_target_literal (op : CpuOperand) :
    (encode_target op.literal).Writes (op.wire.map WireTarget.bytes) := by
  cases op with
  | register w i =>
    have hdata : (CpuOperand.register w i).literal.data =
        (literalPrefix w).data ++ (toString i.toNat).data := String.data_append _ _
    have hclean :
        capitalization (remove_space ((literalPrefix w).data ++ (toString i.toNat).data)) =
          (literalPrefix w).data ++ (toString i.toNat).data :=
      clean_of_plain (CpuSub.plain_literal (.register w i))
    by_cases hv : ∃ cls, RegisterClass.ofTag w = some cls ∧ i.toNat < 8
    · obtain ⟨cls, hcls, hi⟩ := hv
      have hr : (WireRegister.mk cls i).Encodable := hi
      rw [show (CpuOperand.register w i).wire = some (.register ⟨cls, i⟩) by
        simp [CpuOperand.wire, hcls, hi]]
      intro buf
      simp only [encode_target, parse, hdata.trans (register_literal_text hcls),
        clean_of_plain (WireRegister.plain_text _), is_valid_register_iff.mpr ⟨_, hr, rfl⟩,
        if_true]
      exact encode_register_run hr rfl buf
    · rw [show (CpuOperand.register w i).wire = none by
        cases hcls : RegisterClass.ofTag w with
        | none => simp [CpuOperand.wire, hcls]
        | some cls => simpa [CpuOperand.wire, hcls] using fun hi => hv ⟨cls, hcls, hi⟩]
      obtain ⟨pre, hpre⟩ := literalPrefix_cons w
      have hinvalid :
          is_valid_register ((literalPrefix w).data ++ (toString i.toNat).data) = false :=
        Bool.eq_false_iff.mpr fun h => hv ((is_valid_register_literal w i).mp h)
      intro buf
      simp only [encode_target, parse, hdata, hclean, hinvalid, Bool.false_eq_true, if_false]
      rw [hpre, List.cons_append, is_valid_constant_cons (by decide)]
      exact ⟨_, _, rfl⟩
  | constant v =>
    rw [show (CpuOperand.constant v).wire = some (.constant ⟨0x00, v⟩) from rfl]
    have hdata : (CpuOperand.constant v).literal.data = (CpuSub.constant v).literal.data := rfl
    have hclean := clean_of_plain (CpuSub.plain_literal (.constant v))
    have hsub : (CpuSub.constant v).literal.data =
        '$' :: '(' :: ((toString v.toNat).data ++ [')']) := by simp [CpuSub.literal]
    have hvalid : is_valid_constant (CpuSub.constant v).literal.data :=
      is_valid_constant_iff.mpr ⟨_, hsub, List.all_eq_true.mpr fun d hd =>
        ((CpuSub.plain_literal (.constant v)) d (by rw [hsub]; simp [hd])).2.2.1⟩
    intro buf
    simp only [encode_target, parse, hdata, hclean]
    rw [hsub, is_valid_register_cons (show '$' ≠ '%' by decide), ← hsub]
    simp only [Bool.false_eq_true, if_false, hvalid, if_true]
    rw [hsub]
    exact encode_constant_literal v buf
  | memory w b o1 o2 r =>
    have hclean := clean_memory_literal w b o1 o2 r
    cases hr : Ratio.ofByte r with
    | none =>
      rw [show (CpuOperand.memory w b o1 o2 r).wire = none by simp [CpuOperand.wire, hr]]
      have hm : memory_match ('*' :: ((toString r.toNat).data ++ '(' :: (b.literal.data ++
          ',' :: (o1.literal.data ++ ',' :: (o2.literal.data ++ [')']))))) = none := by
        show (memoryRatio _).bind _ = none
        rw [memoryRatio_literal, hr]
        rfl
      obtain ⟨e, he⟩ := parse_star_error hclean hm
      intro buf
      rw [encode_target, he]
      exact ⟨_, _, rfl⟩
    | some ratio =>
      rw [wire_memory_bytes w b o1 o2 hr]
      refine Encode.Writes.shift (fun buf => ?_) ((encode_each_parameter_literal b).bind
        ((encode_each_parameter_literal o1).bind (encode_each_parameter_literal o2)))
      rw [toString_ofByte hr] at hclean
      rw [encode_target, parse_star hclean
        (memory_match_of_plain ratio b.plain_literal o1.plain_literal o2.plain_literal)]
      exact encode_memory_run rfl buf

/-! ### The trace of a decoded operand -/

/-- Whenever `Target::Target` returns, its `literal` is the text of the operand it read between
angle brackets, and `encode_target` reads that text as the assembler's operand naming the same
registers, value, or ratio and sub-operands: it writes that operand's bytes when there is one,
and throws when there is none. -/
theorem construct_literal_reassembles (ci : ControlRegisterIndex) {s s' : Processor} {t : Target}
    (h : (Target.construct ci).run s = .ok t s') :
    ∃ op : CpuOperand, s.At op.bytes ∧ t.literal = "<" ++ op.literal ++ ">" ∧
      ∀ bs, (encode_target op.literal).run [] = .ok () bs ↔
        ∃ wop, op.wire = some wop ∧ bs = wop.bytes := by
  obtain ⟨op, -, hat, -, -, hlit⟩ := Target.read_of_construct ci h
  refine ⟨op, hat, hlit, fun bs => ?_⟩
  have hw := encode_target_literal op
  cases hwire : op.wire with
  | none =>
    rw [hwire] at hw
    obtain ⟨e, buf, he⟩ := hw []
    simp [he]
  | some wop =>
    rw [hwire] at hw
    rw [show (encode_target op.literal).run [] = .ok () wop.bytes from hw []]
    simp [eq_comm]

/-- The memory operand `*1(%FER0, $(4), $(0))` of width `0x64`, alone in memory. -/
theorem construct_literal_reassembles_memory :
    (Target.construct .sample).run Processor.sampleMemory =
      .ok ⟨.TypeMemory, 0x64, 0, 0, 4, "<*1(%FER0, $(4), $(0))>"⟩
        (Processor.sampleMemory.advance 26) ∧
    ∃ op : CpuOperand, Processor.sampleMemory.At op.bytes ∧
      (⟨.TypeMemory, 0x64, 0, 0, 4, "<*1(%FER0, $(4), $(0))>"⟩ : Target).literal =
        "<" ++ op.literal ++ ">" ∧
      ∀ bs, (encode_target op.literal).run [] = .ok () bs ↔
        ∃ wop, op.wire = some wop ∧ bs = wop.bytes := by
  refine ⟨?run, construct_literal_reassembles .sample ?run⟩
  rfl

/-! ### Reading the log back -/

theorem toString_nat_ne_gt (n : Nat) : '>' ∉ (toString n).data := fun h =>
  absurd (mem_toDigits_ten h) (by decide)

theorem literalPrefix_ne_gt (w : BitVec 8) : '>' ∉ (literalPrefix w).data := by
  rw [literalPrefix_eq]
  split
  · next cls _ => cases cls <;> decide
  · decide

theorem CpuSub.literal_ne_gt (p : CpuSub) : '>' ∉ p.literal.data := by
  cases p <;> simp [CpuSub.literal, literalPrefix_ne_gt, toString_nat_ne_gt]

theorem CpuOperand.literal_ne_gt (op : CpuOperand) : '>' ∉ op.literal.data := by
  cases op <;>
    simp [CpuOperand.literal, literalPrefix_ne_gt, toString_nat_ne_gt, CpuSub.literal_ne_gt]

/-- What the log shows of an instruction: `NOP`, or `ADD` with the texts of its two operands;
an unknown opcode shows nothing. -/
def Instruction.shown : Instruction → Option (Option (String × String))
  | .nop => some none
  | .add _ op1 op2 => some (some (op1.literal, op2.literal))
  | .illegal .. => none

/-- The line the log prints for what it shows. -/
def shownLine : Option (String × String) → String
  | none => String.join ["[PROCESSOR]:\tNOP\n"]
  | some (a, b) => String.join ["[PROCESSOR]:\tADD ", "<" ++ a ++ ">", ", ", "<" ++ b ++ ">", "\n"]

theorem flatMap_logLine (is : List Instruction) :
    is.flatMap Instruction.logLine = (is.filterMap Instruction.shown).map shownLine := by
  induction is with
  | nil => rfl
  | cons i is ih => cases i <;> simp [Instruction.logLine, Instruction.shown, shownLine, ih]

theorem shownLine_data (a b : String) : (shownLine (some (a, b))).data =
    "[PROCESSOR]:\tADD <".data ++ (a.data ++ '>' :: (", <".data ++ (b.data ++ ['>', '\n']))) := by
  simp [shownLine, String.join]

theorem shownLine_none_ne (a b : String) : shownLine none ≠ shownLine (some (a, b)) := by
  intro h
  have h' := congrArg String.data h
  rw [shownLine_data] at h'
  simp [shownLine, String.join] at h'

/-- A line that shows an `ADD` ends its first operand's text at the first `>`. -/
theorem shownLine_inj {x y : Option (String × String)}
    (hx : ∀ a b, x = some (a, b) → '>' ∉ a.data) (hy : ∀ a b, y = some (a, b) → '>' ∉ a.data)
    (h : shownLine x = shownLine y) : x = y := by
  rcases x with _ | ⟨a, b⟩ <;> rcases y with _ | ⟨a', b'⟩
  · rfl
  · exact absurd h (shownLine_none_ne a' b')
  · exact absurd h.symm (shownLine_none_ne a b)
  · have h' := congrArg String.data h
    rw [shownLine_data, shownLine_data] at h'
    obtain ⟨ha, -, hb⟩ := append_cons_inj (p := (· = '>'))
      (fun c hc he => hx a b rfl (he ▸ hc)) (fun c hc he => hy a' b' rfl (he ▸ hc)) rfl rfl
      (List.append_cancel_left h')
    rw [String.ext ha, String.ext (List.append_cancel_right (List.append_cancel_left hb))]

theorem map_shownLine_inj {xs ys : List (Option (String × String))}
    (hx : ∀ x ∈ xs, ∀ a b, x = some (a, b) → '>' ∉ a.data)
    (hy : ∀ y ∈ ys, ∀ a b, y = some (a, b) → '>' ∉ a.data)
    (h : xs.map shownLine = ys.map shownLine) : xs = ys := by
  induction xs generalizing ys with
  | nil => cases ys <;> first | rfl | cases h
  | cons x xs ih =>
    cases ys with
    | nil => cases h
    | cons y ys =>
      obtain ⟨h₁, h₂⟩ := List.cons.inj h
      rw [shownLine_inj (hx x (.head _)) (hy y (.head _)) h₁,
        ih (fun x hx' => hx x (.tail _ hx')) (fun y hy' => hy y (.tail _ hy')) h₂]

theorem shown_literal_ne_gt (is : List Instruction) :
    ∀ x ∈ is.filterMap Instruction.shown, ∀ a b, x = some (a, b) → '>' ∉ a.data := by
  rintro x hx a b rfl
  obtain ⟨i, -, hi⟩ := List.mem_filterMap.mp hx
  cases i with
  | nop => cases hi
  | add w op1 op2 =>
    cases hi
    exact op1.literal_ne_gt
  | illegal => cases hi

/-- The log is unambiguous: two lists of instructions print the same lines exactly when they
show the same, in order: which instructions are `NOP` and which `ADD`, and the texts of each
`ADD`'s operands. -/
theorem Instruction.log_shows (is js : List Instruction) :
    is.flatMap Instruction.logLine = js.flatMap Instruction.logLine ↔
      is.filterMap Instruction.shown = js.filterMap Instruction.shown := by
  rw [flatMap_logLine, flatMap_logLine]
  exact ⟨map_shownLine_inj (shown_literal_ne_gt is) (shown_literal_ne_gt js), congrArg _⟩

end Sysdarft
