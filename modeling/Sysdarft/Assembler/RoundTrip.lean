import Sysdarft.Assembler.Image
import Sysdarft.Assembler.Decode
import Mathlib.Data.String.Basic

/-!
# Assembler — disassembling and assembling again

`main` in `encode.target.cpp` assembles six operand texts, disassembles the bytes and prints
the strings `decode` produced.  Here the two directions are put together over every operand.

The texts `decode` writes pass `parse` unchanged but for two things: the blanks after the
commas of a memory operand go, and the `x` of a hex constant becomes `X`, which
`process_base16` turns back before it reads the literal.  So on the text of an encodable
operand, `encode_target` writes that operand's bytes again (`encode_target_text`).

* `decode_encode_target`: decoding the bytes of any text `encode_target` accepts, followed by
  anything, returns with exactly what followed left over, and the text it writes encodes to the
  same bytes.
* `decode_reencodes_iff`: a byte string `decode` reads whole is written again by
  `encode_target` from the decoded text exactly when it is the encoding of an encodable
  operand; `decode_register_index_eight` is a string it reads whole whose text the encoder
  rejects.
-/

namespace Sysdarft

/-! ### Characters the clean-up leaves alone -/

/-- A character `remove_space` and `capitalization` leave alone, and that no pattern reads as a
separator or a line end. -/
def Plain (c : Char) : Prop := c ≠ ' ' ∧ c ≠ ',' ∧ notLineTerminator c ∧ c.toUpper = c

instance (c : Char) : Decidable (Plain c) := inferInstanceAs (Decidable (_ ∧ _))

theorem mem_toDigits {b n : Nat} (hb : 2 ≤ b) {c : Char} (hc : c ∈ Nat.toDigits b n) :
    ∃ d < b, c = Nat.digitChar d := by
  induction n using Nat.strong_induction_on with
  | _ n ih =>
    rw [Nat.toDigits_eq b hb] at hc
    simp only [List.mem_append, List.mem_singleton] at hc
    rcases hc with hc | rfl
    · split at hc
      · cases hc
      · exact ih _ (Nat.div_lt_self (by omega) (by omega)) hc
    · exact ⟨_, Nat.mod_lt _ (by omega), rfl⟩

/-- The digits `Nat.toDigits 10` writes. -/
def decimalDigits : List Char := ['0', '1', '2', '3', '4', '5', '6', '7', '8', '9']

theorem mem_toDigits_ten {n : Nat} {c : Char} (hc : c ∈ Nat.toDigits 10 n) :
    c ∈ decimalDigits := by
  obtain ⟨d, hd, rfl⟩ := mem_toDigits (by decide) hc
  interval_cases d <;> decide

/-- An integer is written with decimal digits and a minus sign. -/
theorem mem_toString_int {n : Int} {c : Char} (hc : c ∈ (toString n).data) :
    c = '-' ∨ c ∈ decimalDigits := by
  rw [toString_int_data, List.mem_append] at hc
  rcases hc with hc | hc
  · split at hc
    · exact .inl (List.mem_singleton.mp hc)
    · cases hc
  · exact .inr (mem_toDigits_ten hc)

/-- The text of an integer begins with `-` exactly when the integer is negative. -/
theorem toString_int_head (n : Int) : (toString n).data.head? = some '-' ↔ n < 0 := by
  rw [toString_int_data]
  split
  · simpa
  · rename_i hn
    simp only [List.nil_append, hn, iff_false]
    intro h
    exact absurd (mem_toDigits_ten (List.mem_of_mem_head? h)) (by decide)

theorem plain_toString_int (n : Int) : ∀ c ∈ (toString n).data, Plain c := by
  intro c hc
  rcases mem_toString_int hc with rfl | hc
  · decide
  · exact (show ∀ c ∈ decimalDigits, Plain c by decide) c hc

theorem plain_hexUpper {n : Nat} : ∀ c ∈ hexUpper n, Plain c := by
  intro c hc
  obtain ⟨c', hc', rfl⟩ := List.mem_map.mp hc
  obtain ⟨d, hd, rfl⟩ := mem_toDigits (by decide) hc'
  interval_cases d <;> decide

theorem remove_space_of_plain {s : List Char} (h : ∀ c ∈ s, Plain c) : remove_space s = s :=
  List.filter_eq_self.mpr fun c hc => by simpa using (h c hc).1

theorem capitalization_of_plain {s : List Char} (h : ∀ c ∈ s, Plain c) : capitalization s = s :=
  (List.map_congr_left fun c hc => (h c hc).2.2.2).trans (List.map_id _)

@[simp] theorem remove_space_append (s t : List Char) :
    remove_space (s ++ t) = remove_space s ++ remove_space t := List.filter_append _ _

@[simp] theorem capitalization_append (s t : List Char) :
    capitalization (s ++ t) = capitalization s ++ capitalization t := List.map_append _ _ _

theorem clean_of_plain {s : List Char} (h : ∀ c ∈ s, Plain c) :
    capitalization (remove_space s) = s := by
  rw [remove_space_of_plain h, capitalization_of_plain h]

/-! ### The texts after the clean-up -/

/-- The integer a constant's text spells. -/
def WireConstant.integer (c : WireConstant) : Int :=
  if c.sign ≠ 0x00 then c.value.toInt else c.value.toNat

/-- What `parse` makes of the expression of a constant's text: the hex form's `x` upper-cased. -/
def WireConstant.cleanBody (c : WireConstant) : List Char :=
  if c.sign ≠ 0x00 then (toString c.value.toInt).data else '0' :: 'X' :: hexUpper c.value.toNat

/-- What `parse` makes of a sub-operand's text. -/
def SubOperand.clean : SubOperand → List Char
  | .register r => r.text.data
  | .constant c => '$' :: '(' :: (c.cleanBody ++ [')'])

theorem RegisterClass.plain_name (cls : RegisterClass) : ∀ c ∈ cls.name.data, Plain c := by
  cases cls <;> decide

theorem WireRegister.plain_text (r : WireRegister) : ∀ c ∈ r.text.data, Plain c := by
  intro c hc
  rw [WireRegister.text, String.data_append, List.mem_append] at hc
  exact hc.elim (r.cls.plain_name c) (plain_toString_int r.index.toNat c)

theorem WireConstant.plain_cleanBody (c : WireConstant) : ∀ d ∈ c.cleanBody, Plain d := by
  unfold WireConstant.cleanBody
  split
  · exact plain_toString_int _
  · simp only [List.mem_cons]
    rintro d (rfl | rfl | hd)
    exacts [by decide, by decide, plain_hexUpper d hd]

theorem SubOperand.plain_clean (p : SubOperand) : ∀ d ∈ p.clean, Plain d := by
  cases p with
  | register r => exact r.plain_text
  | constant c =>
    simp only [SubOperand.clean, List.mem_cons, List.mem_append, List.not_mem_nil, or_false]
    rintro d (rfl | rfl | hd | rfl)
    exacts [by decide, by decide, c.plain_cleanBody d hd, by decide]

theorem WireConstant.clean_text (c : WireConstant) :
    capitalization (remove_space c.text.data) = '$' :: '(' :: (c.cleanBody ++ [')']) := by
  by_cases hsign : c.sign ≠ 0x00
  · have htext : c.text.data = '$' :: '(' :: (c.cleanBody ++ [')']) := by
      simp only [WireConstant.text, WireConstant.cleanBody, if_pos hsign, String.data_append]
      rfl
    rw [htext]
    exact clean_of_plain (SubOperand.plain_clean (.constant c))
  · have htext : c.text.data = ['$', '(', '0', 'x'] ++ hexUpper c.value.toNat ++ [')'] := by
      simp only [WireConstant.text, if_neg hsign, String.data_append]
      rfl
    rw [htext, remove_space_append, remove_space_append, capitalization_append,
      capitalization_append, clean_of_plain plain_hexUpper, WireConstant.cleanBody, if_neg hsign]
    rfl

theorem SubOperand.clean_text (p : SubOperand) :
    capitalization (remove_space p.text.data) = p.clean := by
  cases p with
  | register r => exact clean_of_plain r.plain_text
  | constant c => exact c.clean_text

/-- A memory operand's text loses its blanks, and its sub-operands are cleaned up. -/
theorem WireTarget.clean_memory_text (r : Ratio) (base off1 off2 : SubOperand) :
    capitalization (remove_space (String.join (WireTarget.memory r base off1 off2).text).data) =
      '*' :: (r.text.data ++ '(' :: (base.clean ++ ',' :: (off1.clean ++ ',' ::
        (off2.clean ++ [')'])))) := by
  simp only [WireTarget.text, String.data_join, List.map_cons, List.map_nil, List.flatten_cons,
    List.flatten_nil, List.append_nil, String.data_append, remove_space_append,
    capitalization_append, SubOperand.clean_text, List.append_assoc]
  cases r <;> rfl

/-! ### Parsing the texts -/

theorem is_valid_register_cons {c : Char} (hc : c ≠ '%') (rest : List Char) :
    is_valid_register (c :: rest) = false := by
  by_contra h
  obtain ⟨r, hr, htext⟩ := is_valid_register_iff.mp (Bool.not_eq_false _ ▸ h)
  rw [WireRegister.text_data hr] at htext
  cases hcls : r.cls <;> simp only [hcls, RegisterClass.name] at htext <;> exact hc (List.cons.inj htext).1

theorem is_valid_constant_cons {c : Char} (hc : c ≠ '$') (rest : List Char) :
    is_valid_constant (c :: rest) = false := by
  unfold is_valid_constant
  split <;> simp_all

theorem memoryRatio_text (r : Ratio) (body : List Char) :
    memoryRatio (r.text.data ++ '(' :: body) = some (r.text.data, body) := by
  cases r <;> rfl

/-- A separator that is the first comma of what follows it. -/
theorem span_comma {xs : List Char} (hxs : ',' ∉ xs) (ys : List Char) :
    (xs ++ ',' :: ys).span (· ≠ ',') = (xs, ',' :: ys) := by
  have hpos : ∀ a ∈ xs, decide (a ≠ ',') = true := fun a ha => by
    simpa using fun h : a = ',' => hxs (h ▸ ha)
  rw [List.span_eq_take_drop, List.takeWhile_append_of_pos hpos, List.dropWhile_append_of_pos hpos]
  simp

/-- With no comma in the offsets, the last two commas are the separators. -/
theorem splitLastTwoCommas_of_no_comma {base off1 off2 : List Char} (h1 : ',' ∉ off1)
    (h2 : ',' ∉ off2) :
    splitLastTwoCommas (base ++ ',' :: (off1 ++ ',' :: off2)) = some (base, off1, off2) := by
  unfold splitLastTwoCommas
  simp only [List.reverse_append, List.reverse_cons, List.append_assoc, List.singleton_append,
    List.cons_append]
  rw [span_comma (by simpa using h2)]
  simp only [List.nil_append]
  rw [span_comma (by simpa using h1)]
  simp

/-- `memory_pattern` on text with no comma or line end in its groups. -/
theorem memory_match_of_plain (r : Ratio) {base off1 off2 : List Char}
    (hb : ∀ c ∈ base, Plain c) (h1 : ∀ c ∈ off1, Plain c) (h2 : ∀ c ∈ off2, Plain c) :
    memory_match ('*' :: (r.text.data ++ '(' :: (base ++ ',' :: (off1 ++ ',' ::
      (off2 ++ [')']))))) = some (r.text.data, base, off1, off2) := by
  have hcomma {s : List Char} (h : ∀ c ∈ s, Plain c) : ',' ∉ s := fun hc => (h _ hc).2.1 rfl
  have hbody : base ++ ',' :: (off1 ++ ',' :: (off2 ++ [')'])) =
      (base ++ ',' :: (off1 ++ ',' :: off2)) ++ [')'] := by simp
  have hline : (base ++ ',' :: (off1 ++ ',' :: off2)).all notLineTerminator := by
    simp only [List.all_append, List.all_cons, Bool.and_eq_true, List.all_eq_true]
    exact ⟨fun c hc => (hb c hc).2.2.1, rfl, fun c hc => (h1 c hc).2.2.1, rfl,
      fun c hc => (h2 c hc).2.2.1⟩
  simp only [memory_match, memoryRatio_text, hbody, Option.bind_eq_bind, Option.some_bind,
    List.getLast?_concat, List.dropLast_concat, hline, and_self, if_true,
    splitLastTwoCommas_of_no_comma (hcomma h1) (hcomma h2)]
  rfl

theorem parse_register_text {r : WireRegister} (hr : r.Encodable) :
    parse r.text.data = .ok { RegisterName := r.text.data, TargetType := .REGISTER } := by
  simp only [parse, clean_of_plain r.plain_text, is_valid_register_iff.mpr ⟨r, hr, rfl⟩, if_true]

theorem is_valid_constant_clean (c : WireConstant) :
    is_valid_constant ('$' :: '(' :: (c.cleanBody ++ [')'])) :=
  is_valid_constant_iff.mpr ⟨_, rfl, List.all_eq_true.mpr fun d hd => (c.plain_cleanBody d hd).2.2.1⟩

theorem parse_constant_text (c : WireConstant) :
    parse c.text.data =
      .ok { ConstantExpression := '$' :: '(' :: (c.cleanBody ++ [')']), TargetType := .CONSTANT } := by
  simp only [parse, c.clean_text, is_valid_register_cons (show '$' ≠ '%' by decide),
    is_valid_constant_clean, if_true, Bool.false_eq_true, if_false]

theorem parse_memory_text (r : Ratio) (base off1 off2 : SubOperand) :
    parse (String.join (WireTarget.memory r base off1 off2).text).data =
      .ok { TargetType := .MEMORY, MemoryAccessRatio := r.text.data,
            MemoryBaseAddress := base.clean, MemoryOffset1 := off1.clean,
            MemoryOffset2 := off2.clean } := by
  simp only [parse, WireTarget.clean_memory_text, is_valid_register_cons (show '*' ≠ '%' by decide),
    is_valid_constant_cons (show '*' ≠ '$' by decide), Bool.false_eq_true, if_false,
    memory_match_of_plain r base.plain_clean off1.plain_clean off2.plain_clean]

/-! ### Encoding the texts -/

theorem WireConstant.integer_bounds (c : WireConstant) :
    -2 ^ 63 ≤ c.integer ∧ c.integer < 2 ^ 64 := by
  have hv := c.value.isLt
  unfold WireConstant.integer
  split
  · rw [BitVec.toInt_eq_toNat_cond]; split_ifs <;> omega
  · omega

theorem WireConstant.integer_mod (c : WireConstant) : (c.integer % 2 ^ 64).toNat = c.value.toNat := by
  have hv := c.value.isLt
  unfold WireConstant.integer
  split
  · rw [BitVec.toInt_eq_toNat_cond]; split_ifs <;> omega
  · omega

/-- `process_base16` turns the upper-cased hex form back into decimal. -/
theorem WireConstant.process_base16_cleanBody (c : WireConstant) :
    process_base16 c.cleanBody = (toString c.integer).data := by
  unfold WireConstant.cleanBody WireConstant.integer
  split
  · exact process_base16_of_no_x (fun h => absurd (mem_toString_int h) (by decide))
      (fun h => absurd (mem_toString_int h) (by decide))
  · exact process_base16_hexUpper c.value.isLt

/-- `encode_constant` on the cleaned-up text of an encodable constant writes its bytes. -/
theorem encode_constant_clean {input : parsed_target_t} {c : WireConstant} (hc : c.Encodable)
    (hexpr : input.ConstantExpression = '$' :: '(' :: (c.cleanBody ++ [')']))
    (buf : List (BitVec 8)) :
    (encode_constant input).run buf = .ok () (buf ++ CONSTANT_PREFIX :: c.payload) := by
  obtain ⟨hlo, hhi⟩ := c.integer_bounds
  have hresult : constantResult (toString c.integer).data (toString c.integer).data = c.integer := by
    rw [constantResult_of_range _ hlo hhi]
    simp only [ne_eq, toString_int_head]
    split_ifs <;> omega
  have hsign : (if c.integer < 0 then (0x01 : BitVec 8) else 0x00) = c.sign := by
    unfold WireConstant.integer
    rcases hc with h0 | ⟨h1, hneg⟩
    · simp [h0]
    · simp [h1, hneg]
  rw [encode_constant_run hexpr, c.process_base16_cleanBody, bcEvaluate_toString]
  simp only [hresult, hsign, c.integer_mod, WireConstant.payload]

/-- `encode_each_parameter` on the cleaned-up text of a sub-operand the encoder can produce. -/
theorem encode_each_parameter_clean {p : SubOperand} (hp : p.Encodable) (buf : List (BitVec 8)) :
    (encode_each_parameter p.clean).run buf = .ok () (buf ++ p.bytes) := by
  cases p with
  | register r =>
    obtain ⟨hcls, hr⟩ := hp
    have hfer : r.text.data.dropLast = "%FER".data := by
      rw [WireRegister.text_data hr, List.dropLast_concat, hcls]; rfl
    simp only [encode_each_parameter, SubOperand.clean, is_valid_register_iff.mpr ⟨r, hr, rfl⟩,
      hfer, ne_eq, not_true_eq_false, if_true, if_false]
    exact encode_register_run hr rfl buf
  | constant c =>
    simp only [encode_each_parameter, SubOperand.clean,
      is_valid_register_cons (show '$' ≠ '%' by decide), is_valid_constant_clean,
      Bool.false_eq_true, if_false, if_true]
    exact encode_constant_clean hp rfl buf

/-- On the text `decode` writes for an operand the encoder can produce, `encode_target` writes
that operand's bytes. -/
theorem encode_target_text {op : WireTarget} (hop : op.Encodable) (buf : List (BitVec 8)) :
    (encode_target (String.join op.text)).run buf = .ok () (buf ++ op.bytes) := by
  cases op with
  | register r =>
    have htext : (String.join (WireTarget.register r).text).data = r.text.data := by
      simp [WireTarget.text]
    simp only [encode_target, htext, parse_register_text hop]
    exact encode_register_run hop rfl buf
  | constant c =>
    have htext : (String.join (WireTarget.constant c).text).data = c.text.data := by
      simp [WireTarget.text]
    simp only [encode_target, htext, parse_constant_text]
    exact encode_constant_clean hop rfl buf
  | memory ratio base off1 off2 =>
    obtain ⟨hb, h1, h2⟩ := hop
    simp only [encode_target, parse_memory_text]
    rw [encode_memory_run rfl, run_bind_of_ok (encode_each_parameter_clean hb _),
      run_bind_of_ok (encode_each_parameter_clean h1 _), encode_each_parameter_clean h2]
    simp [WireTarget.bytes]

/-! ### Disassembling and assembling again -/

/-- Decoding the bytes of any text `encode_target` accepts, followed by anything, returns with
exactly what followed left over; the text it writes encodes to the same bytes, so decoding those
writes the same text again. -/
theorem decode_encode_target (T : String) (bs S : List (BitVec 8)) (out : List String)
    (h : (encode_target T).run [] = .ok () bs) :
    ∃ added, Disassembler.decode.run ⟨out, bs ++ S⟩ = .ok () ⟨out ++ added, S⟩ ∧
      (encode_target (String.join added)).run [] = .ok () bs := by
  obtain ⟨op, hop, rfl⟩ := encode_target_encodable h
  exact ⟨op.text, Disassembler.decode_wire out op S, by simpa using encode_target_text hop []⟩

theorem decode_encode_target_exr :
    (encode_target "%exr5").run [] = .ok () [0x01, 0x16, 0x05] ∧
      ∃ added, Disassembler.decode.run ⟨[], [0x01, 0x16, 0x05] ++ [0xFF]⟩ =
          .ok () ⟨[] ++ added, [0xFF]⟩ ∧
        (encode_target (String.join added)).run [] = .ok () [0x01, 0x16, 0x05] :=
  ⟨by rfl, decode_encode_target "%exr5" _ [0xFF] [] (by rfl)⟩

/-- A byte string `decode` reads whole is the encoding of one operand, whose text `decode`
writes; `encode_target` writes the string again from that text exactly when the operand is one
the encoder can produce. -/
theorem decode_reencodes_iff {B : List (BitVec 8)} {out added : List String}
    (h : Disassembler.decode.run ⟨out, B⟩ = .ok () ⟨out ++ added, []⟩) :
    ∃ op : WireTarget, B = op.bytes ∧ added = op.text ∧
      ((encode_target (String.join added)).run [] = .ok () B ↔ op.Encodable) := by
  obtain ⟨op, hB, hout⟩ := Disassembler.decode_sound h
  simp only [List.append_nil, List.append_cancel_left_eq] at hB hout
  subst hB hout
  refine ⟨op, rfl, rfl, fun henc => ?_, fun hop => by simpa using encode_target_text hop []⟩
  obtain ⟨op', hop', hbytes⟩ := encode_target_encodable henc
  rwa [WireTarget.bytes_injective hbytes]

theorem decode_reencodes_fer :
    Disassembler.decode.run ⟨[], [0x01, 0x64, 0x02]⟩ = .ok () ⟨[] ++ ["%FER2"], []⟩ ∧
      ∃ op : WireTarget, [0x01, 0x64, 0x02] = op.bytes ∧ ["%FER2"] = op.text ∧
        ((encode_target (String.join ["%FER2"])).run [] = .ok () [0x01, 0x64, 0x02] ↔
          op.Encodable) :=
  ⟨by rfl, @decode_reencodes_iff _ [] _ (by rfl)⟩

/-- `01 08 08` is read whole as `%R8`, which `register_pattern` rejects, and so does
`encode_target`. -/
theorem decode_register_index_eight :
    Disassembler.decode.run ⟨[], [0x01, 0x08, 0x08]⟩ = .ok () ⟨["%R8"], []⟩ ∧
      (encode_target "%R8").run [] = .error (.ofMessage "%R8") [] :=
  ⟨by rfl, by rfl⟩

end Sysdarft
