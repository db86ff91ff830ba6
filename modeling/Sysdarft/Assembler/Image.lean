import Sysdarft.Assembler.Encode
import Sysdarft.Assembler.Wire

/-!
# Assembler — what the encoder produces

The texts the three patterns accept, and the bytes each encoder writes for them.

* `is_valid_register_iff`: `register_pattern` accepts exactly the texts of the registers with an
  index below 8.
* `encode_constant_run`: `encode_constant` pushes `02` and then, when `bc` finds a value `n`,
  the sign byte and the bytes of the value `constantResult` picks; otherwise it throws with the
  `02` pushed.
* `encode_constant_value`: for a value in `[-2^63, 2^64)` that value is `n`, except that a text
  beginning with `-` and a value of `2^63` or more gives `2^63 - 1`, the `strtoll` reading.
* `encode_target_encodable`: every successful `encode_target` writes the bytes of an encodable
  `WireTarget`;
* `encode_constant_prefix_literal`: `$(0x1+0x12)` is encoded as 13, since expanding `0x1`
  rewrites the front of `0x12`.
-/

namespace Sysdarft

/-! ### Pushing -/

theorem push_run (LENGTH : Nat) (value : Int) (buf : List (BitVec 8)) :
    (push LENGTH value).run buf =
      .ok () (buf ++ toBytesLE (value % 2 ^ LENGTH).toNat (LENGTH / 8)) := rfl

theorem push8_run (value : BitVec 8) (buf : List (BitVec 8)) :
    (push8 value).run buf = .ok () (buf ++ [value]) := by
  rw [push8, push_run]
  have : ((value.toNat : Int) % 256).toNat = value.toNat := by
    have := value.isLt; omega
  simp [this]

/-! ### Registers -/

/-- `[0-7]` is the digit of a number below 8. -/
theorem isOctalDigit_iff {d : Char} : isOctalDigit d ↔ ∃ k < 8, d = Nat.digitChar k := by
  constructor
  · intro h
    simp only [isOctalDigit, decide_eq_true_eq, List.mem_cons, List.mem_singleton,
      List.not_mem_nil, or_false] at h
    rcases h with rfl | rfl | rfl | rfl | rfl | rfl | rfl | rfl
    exacts [⟨0, by decide, rfl⟩, ⟨1, by decide, rfl⟩, ⟨2, by decide, rfl⟩, ⟨3, by decide, rfl⟩,
      ⟨4, by decide, rfl⟩, ⟨5, by decide, rfl⟩, ⟨6, by decide, rfl⟩, ⟨7, by decide, rfl⟩]
  · rintro ⟨k, hk, rfl⟩
    interval_cases k <;> decide

/-- A number below 10 is written as one digit. -/
theorem toString_digit {k : Nat} (hk : k < 10) : (toString k).data = [Nat.digitChar k] := by
  show Nat.toDigits 10 k = _
  rw [Nat.toDigits_eq 10 (by decide), if_pos hk, Nat.mod_eq_of_lt hk]
  rfl

/-- The text of a register of index `k` below 8. -/
theorem WireRegister.text_data {r : WireRegister} (hr : r.Encodable) :
    r.text.data = r.cls.name.data ++ [Nat.digitChar r.index.toNat] := by
  rw [WireRegister.text, String.data_append, toString_digit (by unfold WireRegister.Encodable at hr; omega)]

theorem register_of_octal (cls : RegisterClass) {d : Char} (h : isOctalDigit d) :
    ∃ r : WireRegister, r.Encodable ∧ cls.name.data ++ [d] = r.text.data := by
  obtain ⟨k, hk, rfl⟩ := isOctalDigit_iff.mp h
  have hk' : (BitVec.ofNat 8 k).toNat = k := Nat.mod_eq_of_lt (by omega)
  have hr : (WireRegister.mk cls (BitVec.ofNat 8 k)).Encodable := hk'.trans_lt hk
  exact ⟨⟨cls, BitVec.ofNat 8 k⟩, hr, by rw [WireRegister.text_data hr, hk']⟩

/-- `register_pattern` accepts exactly the texts of the registers with an index below 8. -/
theorem is_valid_register_iff {s : List Char} :
    is_valid_register s ↔ ∃ r : WireRegister, r.Encodable ∧ s = r.text.data := by
  constructor
  · intro h
    unfold is_valid_register at h
    split at h
    case h_1 => exact register_of_octal .R h
    case h_2 => exact register_of_octal .EXR h
    case h_3 => exact register_of_octal .HER h
    case h_4 => exact register_of_octal .FER h
    case h_5 => cases h
  · rintro ⟨⟨cls, index⟩, hr, rfl⟩
    have hoct : isOctalDigit (Nat.digitChar index.toNat) := isOctalDigit_iff.mpr ⟨_, hr, rfl⟩
    rw [WireRegister.text_data hr]
    cases cls <;> exact hoct

theorem strtol_digit {k : Nat} (hk : k < 10) : strtol [Nat.digitChar k] 10 = k := by
  have h := strtoll_toString (k : Int)
  rw [show (toString (k : Int)).data = [Nat.digitChar k] from toString_digit hk] at h
  rw [strtol, h]
  omega

/-- The character `encode_register` switches on: the second of the name. -/
def RegisterClass.letter : RegisterClass → Char
  | .R => 'R'
  | .EXR => 'E'
  | .HER => 'H'
  | .FER => 'F'

/-- `encode_register` on the text of a register with an index below 8 pushes its bytes. -/
theorem encode_register_run {input : parsed_target_t} {r : WireRegister} (hr : r.Encodable)
    (hname : input.RegisterName = r.text.data) (buf : List (BitVec 8)) :
    (encode_register input).run buf = .ok () (buf ++ REGISTER_PREFIX :: r.payload) := by
  have hk : r.index.toNat < 8 := hr
  have hindex : BitVec.ofInt 8 (strtol [input.RegisterName.getLastD ' '] 10) = r.index := by
    rw [hname, WireRegister.text_data hr, List.getLastD_concat, strtol_digit (by omega),
      BitVec.ofInt_natCast, BitVec.ofNat_toNat, BitVec.setWidth_eq]
  have hsecond : input.RegisterName.getD 1 ' ' = r.cls.letter := by
    rw [hname, WireRegister.text_data hr]
    cases r.cls <;> rfl
  simp only [encode_register, hindex, hsecond]
  rw [run_bind_of_ok (push8_run _ _)]
  obtain ⟨cls, index⟩ := r
  cases cls <;>
  · simp only [RegisterClass.letter]
    rw [run_bind_of_ok (push8_run _ _), push8_run]
    simp [WireRegister.payload, RegisterClass.tag]

/-! ### Constants -/

theorem is_valid_constant_iff {s : List Char} :
    is_valid_constant s ↔ ∃ e, s = '$' :: '(' :: (e ++ [')']) ∧ e.all notLineTerminator := by
  constructor
  · intro h
    unfold is_valid_constant at h
    split at h
    · rename_i rest
      simp only [Bool.and_eq_true, decide_eq_true_eq] at h
      exact ⟨rest.dropLast, by rw [List.dropLast_append_getLast? _ h.1], h.2⟩
    · cases h
  · rintro ⟨e, rfl, he⟩
    simp [is_valid_constant, he]

/-- What `encode_constant` keeps of the two readings: the signed one for a text that begins
with `-`, the unsigned one for any other. -/
theorem constantResult_toString (tmp : List Char) (n : Int) :
    constantResult tmp (toString n).data =
      if tmp.head? = some '-' then max (min n (2 ^ 63 - 1)) (-2 ^ 63)
      else if 2 ^ 64 ≤ n.natAbs then 2 ^ 64 - 1
      else if n < 0 then ((2 ^ 64 - n.natAbs : Nat) : Int) else (n.natAbs : Int) := by
  simp only [constantResult, strtoll_toString, strtoull_toString]
  split_ifs <;> first | rfl | omega

/-- `encode_constant` on `$(e)`: the prefix, then either a throw or the sign byte and the eight
bytes of the value `constantResult` picks. -/
theorem encode_constant_run {input : parsed_target_t} {e : List Char}
    (hexpr : input.ConstantExpression = '$' :: '(' :: (e ++ [')'])) (buf : List (BitVec 8)) :
    (encode_constant input).run buf =
      match bcEvaluate (process_base16 e) with
      | some n =>
        let result := constantResult (process_base16 e) (toString n).data
        .ok () (buf ++ CONSTANT_PREFIX :: (if result < 0 then 0x01 else 0x00) ::
          toBytesLE (result % 2 ^ 64).toNat 8)
      | none => .error (.ofMessage (String.mk (process_base16 e) ++ ": " ++ toString 1))
          (buf ++ [CONSTANT_PREFIX]) := by
  have htmp : (input.ConstantExpression.dropLast).drop 2 = e := by
    rw [hexpr, List.dropLast_cons_of_ne_nil (by simp), List.dropLast_cons_of_ne_nil (by simp),
      List.dropLast_concat]
    rfl
  have hlen : ¬ input.ConstantExpression.length ≤ 2 := by rw [hexpr]; simp
  simp only [encode_constant, hlen, if_false, htmp]
  rw [run_bind_of_ok (show (pure () : Encode Unit).run buf = .ok () buf from rfl),
    run_bind_of_ok (push8_run _ _)]
  cases hn : bcEvaluate (process_base16 e) with
  | none => simp only [execute_bc, hn]; rfl
  | some n =>
    simp only [execute_bc, hn]
    rw [run_bind_of_ok (show (pure (toString n).data : Encode (List Char)).run _ = _ from rfl),
      run_bind_of_ok (push8_run _ _), push_run]
    simp only [List.append_assoc, List.singleton_append, List.cons_append, List.nil_append]

/-- The value `encode_constant` keeps for a value `n` in `[-2^63, 2^64)`. -/
theorem constantResult_of_range (tmp : List Char) {n : Int} (hlo : -2 ^ 63 ≤ n)
    (hhi : n < 2 ^ 64) :
    constantResult tmp (toString n).data =
      if 2 ^ 63 ≤ n ∧ tmp.head? = some '-' then 2 ^ 63 - 1
      else if n < 0 ∧ tmp.head? ≠ some '-' then n + 2 ^ 64 else n := by
  rw [constantResult_toString]
  by_cases hminus : tmp.head? = some '-' <;> simp only [hminus, if_true, if_false, true_and,
    and_true, false_and, and_false, ne_eq, not_true, not_false_eq_true] <;> split_ifs <;> omega

/-- A constant `$(e)` whose expansion `process_base16 e` has a value `n` in `[-2^63, 2^64)`:
the sign byte is `0x01` exactly when `n` is negative and the expansion begins with `-`, and the
value bytes are those of `n mod 2^64`, except for `n ≥ 2^63` behind a `-`, where `strtoll`
saturates them to `2^63 - 1`. -/
theorem encode_constant_value (e : List Char) (n : Int) (buf : List (BitVec 8))
    (hn : bcEvaluate (process_base16 e) = some n) (hlo : -2 ^ 63 ≤ n) (hhi : n < 2 ^ 64) :
    (encode_constant
      { ConstantExpression := '$' :: '(' :: (e ++ [')'])
        TargetType := .CONSTANT }).run buf =
      .ok () (buf ++ CONSTANT_PREFIX ::
        (if n < 0 ∧ (process_base16 e).head? = some '-' then 0x01 else 0x00) ::
        toBytesLE (if 2 ^ 63 ≤ n ∧ (process_base16 e).head? = some '-' then 2 ^ 63 - 1
          else (n % 2 ^ 64).toNat) 8) := by
  rw [encode_constant_run rfl, hn]
  simp only [constantResult_of_range _ hlo hhi]
  by_cases hminus : (process_base16 e).head? = some '-'
  · by_cases hbig : 2 ^ 63 ≤ n
    · have hsign : ¬ ((2 : Int) ^ 63 - 1 < 0) := by decide
      have hval : (((2 : Int) ^ 63 - 1) % 2 ^ 64).toNat = 2 ^ 63 - 1 := by decide
      simp only [hminus, hbig, and_self, if_true, show ¬ n < 0 by omega, false_and, if_false,
        hsign, hval]
    · simp only [hminus, hbig, and_true, false_and, if_false, ne_eq, not_true, and_false]
  · simp only [hminus, and_false, if_false, ne_eq, not_false_eq_true, and_true]
    by_cases hneg : n < 0
    · simp only [hneg, if_true, show ¬ n + 2 ^ 64 < 0 by omega, if_false]
      have hmod : ((n + 2 ^ 64) % 2 ^ 64).toNat = (n % 2 ^ 64).toNat := by omega
      rw [hmod]
    · simp [hneg]

/-- `$(-1+18446744073709551615)`: `bc` finds `2^64 - 2`, but the text begins with `-`, so the
signed reading, saturated at `2^63 - 1`, is stored with sign byte `00`, and not the bytes of
`2^64 - 2`. -/
theorem encode_constant_saturates :
    bcEvaluate (process_base16 "-1+18446744073709551615".data) = some (2 ^ 64 - 2) ∧
    (encode_constant
      { ConstantExpression := "$(-1+18446744073709551615)".data
        TargetType := .CONSTANT }).run [] =
      .ok () (CONSTANT_PREFIX :: 0x00 :: toBytesLE (2 ^ 63 - 1) 8) ∧
    toBytesLE (2 ^ 63 - 1) 8 ≠ toBytesLE ((2 ^ 64 - 2 : Int) % 2 ^ 64).toNat 8 :=
  ⟨by rfl, (encode_constant_value "-1+18446744073709551615".data (2 ^ 64 - 2) [] (by rfl)
    (by decide) (by decide)).trans (by rfl), by decide⟩

/-- Whatever `encode_constant` keeps lies in `[-2^63, 2^64)`. -/
theorem constantResult_bounds (tmp : List Char) (n : Int) :
    -2 ^ 63 ≤ constantResult tmp (toString n).data ∧
      constantResult tmp (toString n).data < 2 ^ 64 := by
  rw [constantResult_toString]
  split_ifs <;> omega

/-- Two hex literals, the first the beginning of the second: `replace_all("0x1", "1")` also
rewrites the front of `0x12`, which is then never found, so `$(0x1+0x12)` is encoded as 13
where its literals denote 1 + 18. -/
theorem encode_constant_prefix_literal :
    base16_matches none "0x1+0x12".data = ["0x1".data, "0x12".data] ∧
      process_base16 "0x1+0x12".data = "1+12".data ∧
      expandHexLiterals "0x1+0x12".data = "1+18".data ∧
      (encode_target "$(0x1+0x12)").run [] =
        .ok () (CONSTANT_PREFIX :: 0x00 :: toBytesLE 13 8) := by
  refine ⟨rfl, rfl, ?_, rfl⟩
  rw [expandHexLiterals, replaceOccurrences_of_not_mem (c := 'X') (by simp) (by decide)]
  rfl

/-- The sign byte and value a successful `encode_constant` writes make an encodable constant. -/
theorem encodable_of_result {result : Int} (hlo : -2 ^ 63 ≤ result) (hhi : result < 2 ^ 64) :
    (WireConstant.mk (if result < 0 then 0x01 else 0x00) (BitVec.ofInt 64 result)).Encodable ∧
      (BitVec.ofInt 64 result).toNat = (result % 2 ^ 64).toNat := by
  refine ⟨?_, by simp⟩
  by_cases hneg : result < 0
  · right
    refine ⟨by simp [hneg], ?_⟩
    rw [BitVec.toInt_eq_toNat_cond, BitVec.toNat_ofInt]
    split_ifs <;> omega
  · left
    simp [hneg]

/-- A successful `encode_constant` on `$(e)` writes an encodable constant. -/
theorem encode_constant_encodable {input : parsed_target_t} {e : List Char}
    (hexpr : input.ConstantExpression = '$' :: '(' :: (e ++ [')'])) {bs : List (BitVec 8)}
    (h : (encode_constant input).run [] = .ok () bs) :
    ∃ c : WireConstant, c.Encodable ∧ bs = CONSTANT_PREFIX :: c.payload := by
  rw [encode_constant_run hexpr] at h
  split at h
  · rename_i n _
    obtain ⟨hlo, hhi⟩ := constantResult_bounds (process_base16 e) n
    obtain ⟨hc, hval⟩ := encodable_of_result hlo hhi
    cases h
    exact ⟨_, hc, by simp [WireConstant.payload, hval]⟩
  · cases h

/-! ### Memory operands -/

theorem Encode.Appends.eq_ok {α : Type} {x : Encode α} (hx : x.Appends) {buf bs : List (BitVec 8)}
    {a : α} (h : x.run buf = .ok a bs) : ∃ bs', x.run [] = .ok a bs' ∧ bs = buf ++ bs' := by
  rw [hx buf] at h
  cases hr : x.run [] with
  | ok a' bs' => rw [hr] at h; cases h; exact ⟨bs', rfl, rfl⟩
  | error e bs' => rw [hr] at h; cases h

/-- A sub-operand `encode_each_parameter` accepts is a 64-bit register or a constant. -/
theorem encode_each_parameter_encodable {param : List Char} {bs : List (BitVec 8)}
    (h : (encode_each_parameter param).run [] = .ok () bs) :
    ∃ p : SubOperand, p.Encodable ∧ bs = p.bytes := by
  unfold encode_each_parameter at h
  split_ifs at h with hreg hfer hcon
  · cases h
  · obtain ⟨r, hr, rfl⟩ := is_valid_register_iff.mp hreg
    rw [encode_register_run hr rfl] at h
    cases h
    have hcls : r.cls = .FER := by
      rw [WireRegister.text_data hr, List.dropLast_concat] at hfer
      cases hc : r.cls <;> simp_all [RegisterClass.name]
    exact ⟨.register r, ⟨hcls, hr⟩, rfl⟩
  · obtain ⟨e, rfl, -⟩ := is_valid_constant_iff.mp hcon
    obtain ⟨c, hc, rfl⟩ := encode_constant_encodable rfl h
    exact ⟨.constant c, hc, rfl⟩
  · cases h

theorem memoryRatio_eq_some {s ratio body : List Char} (h : memoryRatio s = some (ratio, body)) :
    ∃ r : Ratio, ratio = r.text.data ∧ s = r.text.data ++ '(' :: body := by
  unfold memoryRatio at h
  split at h <;> cases h
  exacts [⟨.one, rfl, rfl⟩, ⟨.two, rfl, rfl⟩, ⟨.four, rfl, rfl⟩, ⟨.eight, rfl, rfl⟩,
    ⟨.sixteen, rfl, rfl⟩]

theorem memory_match_ratio {s ratio base off1 off2 : List Char}
    (h : memory_match s = some (ratio, base, off1, off2)) : ∃ r : Ratio, ratio = r.text.data := by
  unfold memory_match at h
  split at h
  · simp only [Option.bind_eq_bind, Option.bind_eq_some] at h
    obtain ⟨⟨ratio', body⟩, hratio, h⟩ := h
    obtain ⟨r, rfl, -⟩ := memoryRatio_eq_some hratio
    split_ifs at h
    · simp only [Option.bind_eq_some] at h
      obtain ⟨_, -, h⟩ := h
      cases h
      exact ⟨r, rfl⟩
  · cases h

/-- `encode_memory` on a ratio's text: the prefix and the ratio byte, then the three
sub-operands. -/
theorem encode_memory_run {input : parsed_target_t} {r : Ratio}
    (hr : input.MemoryAccessRatio = r.text.data) (buf : List (BitVec 8)) :
    (encode_memory input).run buf =
      (encode_each_parameter input.MemoryBaseAddress >>= fun _ =>
        encode_each_parameter input.MemoryOffset1 >>= fun _ =>
          encode_each_parameter input.MemoryOffset2).run (buf ++ [MEMORY_PREFIX, r.code]) := by
  have hpush (v : BitVec 8) :
      (push8 v).run (buf ++ [MEMORY_PREFIX]) = .ok () (buf ++ [MEMORY_PREFIX, v]) := by
    rw [push8_run, List.append_assoc, List.singleton_append]
  simp only [encode_memory, hr]
  rw [run_bind_of_ok (push8_run _ _)]
  cases r <;> exact run_bind_of_ok (hpush _)

/-- A memory operand `encode_memory` writes whole is encodable. -/
theorem encode_memory_encodable {input : parsed_target_t} {r : Ratio}
    (hr : input.MemoryAccessRatio = r.text.data) {bs : List (BitVec 8)}
    (h : (encode_memory input).run [] = .ok () bs) :
    ∃ base off1 off2 : SubOperand, base.Encodable ∧ off1.Encodable ∧ off2.Encodable ∧
      bs = (WireTarget.memory r base off1 off2).bytes := by
  rw [encode_memory_run hr, List.nil_append] at h
  obtain ⟨⟨⟩, bs₁, h₁, h⟩ := run_bind_eq_ok h
  obtain ⟨⟨⟩, bs₂, h₂, h₃⟩ := run_bind_eq_ok h
  obtain ⟨p₁, e₁, rfl⟩ := (encode_each_parameter_appends _).eq_ok h₁
  obtain ⟨p₂, e₂, rfl⟩ := (encode_each_parameter_appends _).eq_ok h₂
  obtain ⟨p₃, e₃, rfl⟩ := (encode_each_parameter_appends _).eq_ok h₃
  obtain ⟨base, hb, rfl⟩ := encode_each_parameter_encodable e₁
  obtain ⟨off1, ho₁, rfl⟩ := encode_each_parameter_encodable e₂
  obtain ⟨off2, ho₂, rfl⟩ := encode_each_parameter_encodable e₃
  exact ⟨base, off1, off2, hb, ho₁, ho₂, by simp [WireTarget.bytes]⟩

/-! ### Operands -/

/-- What `parse` returns: a register, a constant or a memory operand whose texts passed their
patterns. -/
theorem parse_eq_ok {input : List Char} {parsed : parsed_target_t}
    (h : parse input = .ok parsed) :
    (parsed.TargetType = .REGISTER ∧ is_valid_register parsed.RegisterName) ∨
    (parsed.TargetType = .CONSTANT ∧ is_valid_constant parsed.ConstantExpression) ∨
    (parsed.TargetType = .MEMORY ∧ ∃ s base off1 off2,
      memory_match s = some (parsed.MemoryAccessRatio, base, off1, off2)) := by
  unfold parse at h
  dsimp only at h
  split_ifs at h with hreg hcon
  · cases h; exact Or.inl ⟨rfl, hreg⟩
  · cases h; exact Or.inr (Or.inl ⟨rfl, hcon⟩)
  · split at h
    · rename_i ratio base off1 off2 hm
      cases h
      exact Or.inr (Or.inr ⟨rfl, _, base, off1, off2, hm⟩)
    · cases h

/-- Every operand `encode_target` writes is the encoding of an encodable `WireTarget`. -/
theorem encode_target_encodable {T : String} {bs : List (BitVec 8)}
    (h : (encode_target T).run [] = .ok () bs) : ∃ op : WireTarget, op.Encodable ∧ bs = op.bytes := by
  unfold encode_target at h
  split at h
  · cases h
  · rename_i parsed hparse
    rcases parse_eq_ok hparse with ⟨htype, hreg⟩ | ⟨htype, hcon⟩ | ⟨htype, _, _, _, _, hm⟩
    · rw [htype] at h
      obtain ⟨r, hr, hname⟩ := is_valid_register_iff.mp hreg
      rw [encode_register_run hr hname] at h
      cases h
      exact ⟨.register r, hr, rfl⟩
    · rw [htype] at h
      obtain ⟨e, hexpr, -⟩ := is_valid_constant_iff.mp hcon
      obtain ⟨c, hc, rfl⟩ := encode_constant_encodable hexpr h
      exact ⟨.constant c, hc, rfl⟩
    · rw [htype] at h
      obtain ⟨r, hr⟩ := memory_match_ratio hm
      obtain ⟨base, off1, off2, hb, ho₁, ho₂, rfl⟩ := encode_memory_encodable hr h
      exact ⟨.memory r base off1 off2, ⟨hb, ho₁, ho₂⟩, rfl⟩

end Sysdarft
