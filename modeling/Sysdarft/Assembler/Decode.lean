import Sysdarft.Assembler.Text
import Sysdarft.Assembler.Wire

/-!
# Assembler — the disassembler

`decode` in `encode.target.cpp` reads one operand from the front of a `std::vector<uint8_t>`,
erasing the bytes it reads, and appends its text to a `std::vector<std::string>`, in pieces.
The two vectors are the state of `Decode`.  `pop<LENGTH>` takes `input[0]` without looking at
the size of the vector; on an empty vector that is undefined behaviour, which the model keeps
apart from a `TargetExpressionError` as the fault `emptyInput`.

The functions are in the namespace `Disassembler`, apart from the processor's `pop`.

* `decode_wire`: on the bytes of any `WireTarget` followed by anything, `decode` returns, appends
  the operand's text and leaves exactly what followed;
* `decode_sound`: whenever `decode` returns, it read the bytes of some `WireTarget` and appended
  that operand's text;
* `decode_truncated`: on every strict prefix of an operand's bytes `decode` runs out of input.
  It rests on `Extends`, proved once for each reader: what a reader does is decided by the
  bytes it reads, so that more bytes after its input change nothing unless it ran out;
* `decode_runs_out_below_32`: it runs out only on inputs shorter than 32 bytes, the length of a
  memory operand of three constants (`ReadsAtMost`, again proved once for each reader).
-/

namespace Sysdarft

/-- The output vector and the input vector of the disassembler. -/
structure Disassembly where
  output : List String
  input : List (BitVec 8)
  deriving DecidableEq, Repr

/-- `d` with the bytes `S` after its input. -/
def Disassembly.extend (d : Disassembly) (S : List (BitVec 8)) : Disassembly :=
  { d with input := d.input ++ S }

/-- How a disassembly stops without returning. -/
inductive DecodeFault
  | error (e : TargetExpressionError)
  | emptyInput
  deriving DecidableEq, Repr

namespace Disassembler

abbrev Decode := EStateM DecodeFault Disassembly

/-- `input[0]`, then `input.erase(input.begin())`. -/
def takeByte : Decode (BitVec 8) := fun d =>
  match d.input with
  | b :: bs => .ok b { d with input := bs }
  | [] => .error .emptyInput d

/-- The loop of `pop<LENGTH>`. -/
def takeBytes : Nat → Decode (List (BitVec 8))
  | 0 => pure []
  | n + 1 => do
    let b ← takeByte
    let bs ← takeBytes n
    pure (b :: bs)

/-- `pop<LENGTH>`: `LENGTH / 8` bytes, little-endian. -/
def pop (LENGTH : Nat) : Decode (BitVec LENGTH) := do
  let bytes ← takeBytes (LENGTH / 8)
  if LENGTH / 8 = 1 ∨ LENGTH / 8 = 2 ∨ LENGTH / 8 = 4 ∨ LENGTH / 8 = 8 then
    pure (BitVec.ofNat LENGTH (ofBytesLE bytes))
  else throw (.error (.ofMessage "Unrecognized length"))

/-- `pop8`. -/
def pop8 : Decode (BitVec 8) := pop 8

/-- `output.push_back(s)`. -/
def emit (s : String) : Decode Unit := modify fun d => { d with output := d.output ++ [s] }

/-- The `switch (register_size)` of `decode_register`. -/
def registerName (register_size : BitVec 8) : Decode String :=
  if register_size = 0x08 then pure "%R"
  else if register_size = 0x16 then pure "%EXR"
  else if register_size = 0x32 then pure "%HER"
  else if register_size = 0x64 then pure "%FER"
  else throw (.error (.ofMessage "Unrecognized register size"))

/-- `decode_register`. -/
def decode_register : Decode Unit := do
  let register_size ← pop8
  let register_index ← pop8
  let name ← registerName register_size
  emit (name ++ toString register_index.toNat)

/-- `decode_constant`. -/
def decode_constant : Decode Unit := do
  let sign ← pop8
  let num ← pop 64
  let signed_num : Int := num.toInt
  emit ("$(" ++ (if sign ≠ 0x00 then toString signed_num
    else "0x" ++ String.mk (hexUpper num.toNat)) ++ ")")

/-- The lambda `decode_each_parameter` of `decode_memory`. -/
def decode_each_parameter : Decode Unit := do
  let p ← pop8
  if p = REGISTER_PREFIX then decode_register
  else if p = CONSTANT_PREFIX then decode_constant
  else throw (.error (.ofMessage "Unrecognized parameter prefix"))

/-- The `switch (pop8(input))` of `decode_memory`. -/
def ratioText (ratio : BitVec 8) : Decode String :=
  if ratio = 0x01 then pure "*1("
  else if ratio = 0x02 then pure "*2("
  else if ratio = 0x04 then pure "*4("
  else if ratio = 0x08 then pure "*8("
  else if ratio = 0x16 then pure "*16("
  else throw (.error (.ofMessage "Unrecognized memory ratio"))

/-- `decode_memory`. -/
def decode_memory : Decode Unit := do
  let text ← pop8 >>= ratioText
  emit text
  decode_each_parameter
  emit ", "
  decode_each_parameter
  emit ", "
  decode_each_parameter
  emit ")"

/-- `decode`. -/
def decode : Decode Unit := do
  let p ← pop8
  if p = REGISTER_PREFIX then decode_register
  else if p = CONSTANT_PREFIX then decode_constant
  else if p = MEMORY_PREFIX then decode_memory
  else throw (.error (.ofMessage "Unrecognized Target prefix"))

/-! ### Taking bytes -/

theorem takeBytes_run (out : List String) {n : Nat} {bs : List (BitVec 8)} (S : List (BitVec 8))
    (h : bs.length = n) : (takeBytes n).run ⟨out, bs ++ S⟩ = .ok bs ⟨out, S⟩ := by
  subst h
  induction bs with
  | nil => rfl
  | cons b bs ih =>
    have htake : takeByte.run ⟨out, b :: (bs ++ S)⟩ = .ok b ⟨out, bs ++ S⟩ := rfl
    simp only [takeBytes, List.length_cons, List.cons_append]
    rw [run_bind_of_ok htake, run_bind_of_ok ih]
    rfl

theorem takeBytes_eq_ok {n : Nat} {d d' : Disassembly} {bs : List (BitVec 8)}
    (h : (takeBytes n).run d = .ok bs d') :
    d.input = bs ++ d'.input ∧ bs.length = n ∧ d'.output = d.output := by
  induction n generalizing d bs with
  | zero => cases h; exact ⟨rfl, rfl, rfl⟩
  | succ n ih =>
    obtain ⟨b, d₁, h₁, h₂⟩ := run_bind_eq_ok h
    obtain ⟨bs', d₂, h₃, h₄⟩ := run_bind_eq_ok h₂
    cases h₄
    obtain ⟨hin, hlen, hout⟩ := ih h₃
    simp only [run_eq_apply, takeByte] at h₁
    split at h₁
    · rename_i b' bs'' hinput
      cases h₁
      simp only at hin hout
      exact ⟨by rw [hinput, hin]; rfl, by rw [List.length_cons, hlen], hout⟩
    · cases h₁

theorem pop8_run (out : List String) (b : BitVec 8) (S : List (BitVec 8)) :
    pop8.run ⟨out, b :: S⟩ = .ok b ⟨out, S⟩ := by
  simp only [pop8, pop]
  have htake := @takeBytes_run out (8 / 8) [b] S (by rfl)
  rw [List.singleton_append] at htake
  rw [run_bind_of_ok htake]
  simp only [ofBytesLE_cons, ofBytesLE_nil, Nat.mul_zero, Nat.add_zero, BitVec.ofNat_toNat,
    BitVec.setWidth_eq]
  rfl

theorem pop8_eq_ok {d d' : Disassembly} {b : BitVec 8} (h : pop8.run d = .ok b d') :
    d.input = b :: d'.input ∧ d'.output = d.output := by
  obtain ⟨bs, d₁, h₁, h₂⟩ := run_bind_eq_ok h
  obtain ⟨hin, hlen, hout⟩ := takeBytes_eq_ok h₁
  obtain ⟨c, rfl⟩ : ∃ c, bs = [c] := List.length_eq_one.mp hlen
  simp only [if_pos (Or.inl rfl : 8 / 8 = 1 ∨ _)] at h₂
  cases h₂
  simp [hin, hout, BitVec.ofNat_toNat]

theorem pop64_run (out : List String) (v : BitVec 64) (S : List (BitVec 8)) :
    (pop 64).run ⟨out, toBytesLE v.toNat 8 ++ S⟩ = .ok v ⟨out, S⟩ := by
  simp only [pop]
  rw [run_bind_of_ok (takeBytes_run out S (length_toBytesLE v.toNat 8))]
  simp only [ofBytesLE_toBytesLE, Nat.mod_eq_of_lt (show v.toNat < 256 ^ 8 from v.isLt),
    BitVec.ofNat_toNat, BitVec.setWidth_eq]
  rfl

theorem pop64_eq_ok {d d' : Disassembly} {v : BitVec 64} (h : (pop 64).run d = .ok v d') :
    d.input = toBytesLE v.toNat 8 ++ d'.input ∧ d'.output = d.output := by
  obtain ⟨bs, d₁, h₁, h₂⟩ := run_bind_eq_ok h
  obtain ⟨hin, hlen, hout⟩ := takeBytes_eq_ok h₁
  simp only [if_pos (Or.inr (Or.inr (Or.inr rfl)) : 64 / 8 = 1 ∨ _)] at h₂
  cases h₂
  have hlt : ofBytesLE bs < 2 ^ 64 := by simpa [hlen] using ofBytesLE_lt bs
  have hbytes := toBytesLE_ofBytesLE bs
  rw [show bs.length = 8 from hlen] at hbytes
  rw [BitVec.toNat_ofNat, Nat.mod_eq_of_lt hlt, hbytes]
  exact ⟨hin, hout⟩

theorem emit_run (text : String) (d : Disassembly) :
    (emit text).run d = .ok () { d with output := d.output ++ [text] } := rfl

theorem run_emit_bind {α : Type} (text : String) (f : Unit → Decode α) (d : Disassembly) :
    (emit text >>= f).run d = (f ()).run { d with output := d.output ++ [text] } :=
  run_bind_of_ok (emit_run text d)

/-! ### Registers and constants -/

theorem registerName_tag (cls : RegisterClass) (d : Disassembly) :
    (registerName cls.tag).run d = .ok cls.name d := by
  cases cls <;> rfl

theorem registerName_eq_ok {w : BitVec 8} {d d' : Disassembly} {name : String}
    (h : (registerName w).run d = .ok name d') :
    ∃ cls : RegisterClass, w = cls.tag ∧ name = cls.name ∧ d' = d := by
  unfold registerName at h
  split_ifs at h with h₁ h₂ h₃ h₄ <;> cases h
  exacts [⟨.R, h₁, rfl, rfl⟩, ⟨.EXR, h₂, rfl, rfl⟩, ⟨.HER, h₃, rfl, rfl⟩, ⟨.FER, h₄, rfl, rfl⟩]

theorem decode_register_run (out : List String) (r : WireRegister) (S : List (BitVec 8)) :
    decode_register.run ⟨out, r.payload ++ S⟩ = .ok () ⟨out ++ [r.text], S⟩ := by
  simp only [decode_register, WireRegister.payload, List.cons_append, List.nil_append]
  rw [run_bind_of_ok (pop8_run _ _ _), run_bind_of_ok (pop8_run _ _ _),
    run_bind_of_ok (registerName_tag _ _)]
  rfl

theorem decode_register_eq_ok {out : List String} {B : List (BitVec 8)} {d' : Disassembly}
    (h : decode_register.run ⟨out, B⟩ = .ok () d') :
    ∃ r : WireRegister, B = r.payload ++ d'.input ∧ d'.output = out ++ [r.text] := by
  obtain ⟨w, d₁, h₁, h₂⟩ := run_bind_eq_ok h
  obtain ⟨i, d₂, h₃, h₄⟩ := run_bind_eq_ok h₂
  obtain ⟨name, d₃, h₅, h₆⟩ := run_bind_eq_ok h₄
  obtain ⟨cls, rfl, rfl, rfl⟩ := registerName_eq_ok h₅
  rw [emit_run] at h₆
  cases h₆
  obtain ⟨hin₁, hout₁⟩ := pop8_eq_ok h₁
  obtain ⟨hin₂, hout₂⟩ := pop8_eq_ok h₃
  refine ⟨⟨cls, i⟩, ?_, ?_⟩
  · simp only at hin₁; simp [hin₁, hin₂, WireRegister.payload]
  · simp only at hout₁; simp [hout₁, hout₂, WireRegister.text]

theorem decode_constant_run (out : List String) (c : WireConstant) (S : List (BitVec 8)) :
    decode_constant.run ⟨out, c.payload ++ S⟩ = .ok () ⟨out ++ [c.text], S⟩ := by
  simp only [decode_constant, WireConstant.payload, List.cons_append]
  rw [run_bind_of_ok (pop8_run _ _ _), run_bind_of_ok (pop64_run _ _ _)]
  rfl

theorem decode_constant_eq_ok {out : List String} {B : List (BitVec 8)} {d' : Disassembly}
    (h : decode_constant.run ⟨out, B⟩ = .ok () d') :
    ∃ c : WireConstant, B = c.payload ++ d'.input ∧ d'.output = out ++ [c.text] := by
  obtain ⟨sign, d₁, h₁, h₂⟩ := run_bind_eq_ok h
  obtain ⟨num, d₂, h₃, h₄⟩ := run_bind_eq_ok h₂
  rw [emit_run] at h₄
  cases h₄
  obtain ⟨hin₁, hout₁⟩ := pop8_eq_ok h₁
  obtain ⟨hin₂, hout₂⟩ := pop64_eq_ok h₃
  refine ⟨⟨sign, num⟩, ?_, ?_⟩
  · simp only at hin₁; simp [hin₁, hin₂, WireConstant.payload]
  · simp only at hout₁; simp [hout₁, hout₂, WireConstant.text]

/-! ### Sub-operands -/

theorem decode_each_parameter_run (out : List String) (p : SubOperand) (S : List (BitVec 8)) :
    decode_each_parameter.run ⟨out, p.bytes ++ S⟩ = .ok () ⟨out ++ [p.text], S⟩ := by
  cases p with
  | register r =>
    simp only [decode_each_parameter, SubOperand.bytes, List.cons_append]
    rw [run_bind_of_ok (pop8_run _ _ _), if_pos rfl, decode_register_run]
    rfl
  | constant c =>
    simp only [decode_each_parameter, SubOperand.bytes, List.cons_append]
    rw [run_bind_of_ok (pop8_run _ _ _), if_neg (by decide), if_pos rfl, decode_constant_run]
    rfl

theorem decode_each_parameter_eq_ok {out : List String} {B : List (BitVec 8)} {d' : Disassembly}
    (h : decode_each_parameter.run ⟨out, B⟩ = .ok () d') :
    ∃ p : SubOperand, B = p.bytes ++ d'.input ∧ d'.output = out ++ [p.text] := by
  obtain ⟨pre, ⟨out₁, B₁⟩, h₁, h₂⟩ := run_bind_eq_ok h
  obtain ⟨hin, hout⟩ := pop8_eq_ok h₁
  simp only at hin hout
  subst hin hout
  split_ifs at h₂ with hr hc
  · obtain ⟨r, rfl, hout⟩ := decode_register_eq_ok h₂
    exact ⟨.register r, by simp [SubOperand.bytes, hr], hout⟩
  · obtain ⟨c, rfl, hout⟩ := decode_constant_eq_ok h₂
    exact ⟨.constant c, by simp [SubOperand.bytes, hc], hout⟩
  · cases h₂

/-! ### Memory operands -/

theorem ratioText_code (ratio : Ratio) (d : Disassembly) :
    (ratioText ratio.code).run d = .ok ("*" ++ ratio.text ++ "(") d := by
  cases ratio <;> rfl

theorem ratioText_eq_ok {code : BitVec 8} {d d' : Disassembly} {text : String}
    (h : (ratioText code).run d = .ok text d') :
    ∃ ratio : Ratio, code = ratio.code ∧ text = "*" ++ ratio.text ++ "(" ∧ d' = d := by
  unfold ratioText at h
  split_ifs at h with h₁ h₂ h₃ h₄ h₅ <;> cases h
  exacts [⟨.one, h₁, rfl, rfl⟩, ⟨.two, h₂, rfl, rfl⟩, ⟨.four, h₃, rfl, rfl⟩, ⟨.eight, h₄, rfl, rfl⟩,
    ⟨.sixteen, h₅, rfl, rfl⟩]

theorem decode_memory_run (out : List String) (ratio : Ratio) (base off1 off2 : SubOperand)
    (S : List (BitVec 8)) :
    decode_memory.run ⟨out, ratio.code :: (base.bytes ++ off1.bytes ++ off2.bytes) ++ S⟩ =
      .ok () ⟨out ++ (WireTarget.memory ratio base off1 off2).text, S⟩ := by
  have hratio : ∀ rest, (pop8 >>= ratioText).run ⟨out, ratio.code :: rest⟩ =
      .ok ("*" ++ ratio.text ++ "(") ⟨out, rest⟩ :=
    fun rest => (run_bind_of_ok (pop8_run _ _ _)).trans (ratioText_code _ _)
  simp only [decode_memory, List.cons_append, List.append_assoc]
  rw [run_bind_of_ok (hratio _), run_emit_bind, run_bind_of_ok (decode_each_parameter_run _ _ _),
    run_emit_bind, run_bind_of_ok (decode_each_parameter_run _ _ _), run_emit_bind,
    run_bind_of_ok (decode_each_parameter_run _ _ _), emit_run]
  simp [WireTarget.text]

theorem decode_memory_eq_ok {out : List String} {B : List (BitVec 8)} {d' : Disassembly}
    (h : decode_memory.run ⟨out, B⟩ = .ok () d') :
    ∃ (ratio : Ratio) (base off1 off2 : SubOperand),
      B = ratio.code :: (base.bytes ++ off1.bytes ++ off2.bytes) ++ d'.input ∧
      d'.output = out ++ (WireTarget.memory ratio base off1 off2).text := by
  obtain ⟨text, d₁, h₁, h₂⟩ := run_bind_eq_ok h
  obtain ⟨code, d₀, h₀, h₁⟩ := run_bind_eq_ok h₁
  obtain ⟨ratio, rfl, rfl, rfl⟩ := ratioText_eq_ok h₁
  obtain ⟨hin₀, hout₀⟩ := pop8_eq_ok h₀
  rw [run_emit_bind] at h₂
  obtain ⟨_, ⟨out₃, B₃⟩, h₃, h₄⟩ := run_bind_eq_ok h₂
  obtain ⟨base, hB₂, hout₃⟩ := decode_each_parameter_eq_ok h₃
  rw [run_emit_bind] at h₄
  obtain ⟨_, ⟨out₅, B₅⟩, h₅, h₆⟩ := run_bind_eq_ok h₄
  obtain ⟨off1, hB₃, hout₅⟩ := decode_each_parameter_eq_ok h₅
  rw [run_emit_bind] at h₆
  obtain ⟨_, ⟨out₇, B₇⟩, h₇, h₈⟩ := run_bind_eq_ok h₆
  obtain ⟨off2, hB₄, hout₇⟩ := decode_each_parameter_eq_ok h₇
  rw [emit_run] at h₈
  cases h₈
  simp only at hin₀ hout₀ hB₂ hB₃ hB₄ hout₃ hout₅ hout₇
  refine ⟨ratio, base, off1, off2, ?_, ?_⟩
  · simp [hin₀, hB₂, hB₃, hB₄]
  · simp [hout₀, hout₃, hout₅, hout₇, WireTarget.text]

/-! ### Operands -/

/-- On the bytes of any operand, followed by anything, `decode` returns, appends the operand's
text and leaves exactly what followed. -/
theorem decode_wire (out : List String) (op : WireTarget) (S : List (BitVec 8)) :
    decode.run ⟨out, op.bytes ++ S⟩ = .ok () ⟨out ++ op.text, S⟩ := by
  cases op with
  | register r =>
    simp only [decode, WireTarget.bytes, List.cons_append]
    rw [run_bind_of_ok (pop8_run _ _ _), if_pos rfl, decode_register_run]
    rfl
  | constant c =>
    simp only [decode, WireTarget.bytes, List.cons_append]
    rw [run_bind_of_ok (pop8_run _ _ _), if_neg (by decide), if_pos rfl, decode_constant_run]
    rfl
  | memory ratio base off1 off2 =>
    simp only [decode, WireTarget.bytes, List.cons_append]
    rw [run_bind_of_ok (pop8_run _ _ _), if_neg (by decide), if_neg (by decide), if_pos rfl,
      ← List.cons_append, decode_memory_run]

/-- Whenever `decode` returns, it has read the bytes of an operand and appended its text. -/
theorem decode_sound {out : List String} {B : List (BitVec 8)} {d' : Disassembly}
    (h : decode.run ⟨out, B⟩ = .ok () d') :
    ∃ op : WireTarget, B = op.bytes ++ d'.input ∧ d'.output = out ++ op.text := by
  obtain ⟨pre, ⟨out₁, B₁⟩, h₁, h₂⟩ := run_bind_eq_ok h
  obtain ⟨hin, hout⟩ := pop8_eq_ok h₁
  simp only at hin hout
  subst hin hout
  split_ifs at h₂ with hr hc hm
  · obtain ⟨r, rfl, hout⟩ := decode_register_eq_ok h₂
    exact ⟨.register r, by simp [WireTarget.bytes, hr], hout⟩
  · obtain ⟨c, rfl, hout⟩ := decode_constant_eq_ok h₂
    exact ⟨.constant c, by simp [WireTarget.bytes, hc], hout⟩
  · obtain ⟨ratio, base, off1, off2, rfl, hout⟩ := decode_memory_eq_ok h₂
    exact ⟨.memory ratio base off1 off2, by simp [WireTarget.bytes, hm], hout⟩
  · cases h₂

/-! ### Running out of input -/

/-- A result with the bytes `S` after the input of its state. -/
def extendResult {α : Type} (S : List (BitVec 8)) :
    EStateM.Result DecodeFault Disassembly α → EStateM.Result DecodeFault Disassembly α
  | .ok a d => .ok a (d.extend S)
  | .error e d => .error e (d.extend S)

/-- `m` decides what it does by the bytes it reads: with more bytes after its input it does
what it did, and leaves them, unless it ran out of input. -/
def Extends {α : Type} (m : Decode α) : Prop :=
  ∀ d S, (∀ d', m.run d ≠ .error .emptyInput d') → m.run (d.extend S) = extendResult S (m.run d)

section Extends

variable {α β : Type}

theorem extends_pure (a : α) : Extends (pure a : Decode α) := fun _ _ _ => rfl

theorem extends_throw (e : TargetExpressionError) : Extends (throw (.error e) : Decode α) :=
  fun _ _ _ => rfl

theorem extends_emit (text : String) : Extends (emit text) := fun _ _ _ => rfl

theorem extends_takeByte : Extends takeByte := by
  rintro ⟨out, _ | ⟨b, bs⟩⟩ S h
  · exact absurd rfl (h _)
  · rfl

theorem Extends.bind {m : Decode α} {f : α → Decode β} (hm : Extends m)
    (hf : ∀ a, Extends (f a)) : Extends (m >>= f) := by
  intro d S h
  cases hrun : m.run d with
  | ok a d₁ =>
    have hext : m.run (d.extend S) = .ok a (d₁.extend S) := by
      rw [hm d S (by simp [hrun]), hrun]
      rfl
    rw [run_bind_of_ok hrun] at h ⊢
    rw [run_bind_of_ok hext]
    exact hf a d₁ S h
  | error e d₁ =>
    cases e with
    | emptyInput => exact absurd (run_bind_of_error hrun) (h d₁)
    | error e =>
      have hext : m.run (d.extend S) = .error (.error e) (d₁.extend S) := by
        rw [hm d S (by simp [hrun]), hrun]
        rfl
      rw [run_bind_of_error hrun, run_bind_of_error hext]
      rfl

theorem Extends.ite {c : Prop} [Decidable c] {x y : Decode α} (hx : Extends x)
    (hy : Extends y) : Extends (if c then x else y) := by
  split <;> assumption

end Extends

theorem takeBytes_extends (n : Nat) : Extends (takeBytes n) := by
  induction n with
  | zero => exact extends_pure _
  | succ n ih => exact extends_takeByte.bind fun _ => ih.bind fun _ => extends_pure _

theorem pop_extends (LENGTH : Nat) : Extends (pop LENGTH) :=
  (takeBytes_extends _).bind fun _ => Extends.ite (extends_pure _) (extends_throw _)

theorem registerName_extends (w : BitVec 8) : Extends (registerName w) :=
  .ite (extends_pure _) <| .ite (extends_pure _) <| .ite (extends_pure _) <|
    .ite (extends_pure _) (extends_throw _)

theorem ratioText_extends (code : BitVec 8) : Extends (ratioText code) :=
  .ite (extends_pure _) <| .ite (extends_pure _) <| .ite (extends_pure _) <|
    .ite (extends_pure _) <| .ite (extends_pure _) (extends_throw _)

theorem decode_register_extends : Extends decode_register :=
  (pop_extends 8).bind fun _ => (pop_extends 8).bind fun _ =>
    (registerName_extends _).bind fun _ => extends_emit _

theorem decode_constant_extends : Extends decode_constant :=
  (pop_extends 8).bind fun _ => (pop_extends 64).bind fun _ => extends_emit _

theorem decode_each_parameter_extends : Extends decode_each_parameter :=
  (pop_extends 8).bind fun _ => Extends.ite decode_register_extends
    (Extends.ite decode_constant_extends (extends_throw _))

theorem decode_memory_extends : Extends decode_memory :=
  ((pop_extends 8).bind ratioText_extends).bind fun _ => (extends_emit _).bind fun _ =>
    decode_each_parameter_extends.bind fun _ => (extends_emit _).bind fun _ =>
    decode_each_parameter_extends.bind fun _ => (extends_emit _).bind fun _ =>
    decode_each_parameter_extends.bind fun _ => extends_emit _

/-- `decode` decides what it does by the bytes it reads. -/
theorem decode_extends : Extends decode :=
  (pop_extends 8).bind fun _ => Extends.ite decode_register_extends
    (Extends.ite decode_constant_extends (Extends.ite decode_memory_extends (extends_throw _)))

/-! ### How much `decode` reads -/

/-- `m` reads at most `n` bytes: on an input of at least `n` bytes it does not run out, and when
it returns it has taken at most `n`. -/
def ReadsAtMost {α : Type} (n : Nat) (m : Decode α) : Prop :=
  ∀ d : Disassembly, n ≤ d.input.length → (∀ d', m.run d ≠ .error .emptyInput d') ∧
    ∀ a d', m.run d = .ok a d' → d.input.length ≤ d'.input.length + n

section ReadsAtMost

variable {α β : Type}

theorem readsAtMost_pure (a : α) : ReadsAtMost 0 (pure a : Decode α) :=
  fun _ _ => ⟨fun _ h => (nomatch h), fun _ _ h => by cases h; omega⟩

theorem readsAtMost_throw (e : TargetExpressionError) :
    ReadsAtMost 0 (throw (.error e) : Decode α) :=
  fun _ _ => ⟨fun _ h => (nomatch h), fun _ _ h => nomatch h⟩

theorem readsAtMost_emit (text : String) : ReadsAtMost 0 (emit text) :=
  fun _ _ => ⟨fun _ h => (nomatch h), fun _ _ h => by cases h; simp⟩

theorem readsAtMost_takeByte : ReadsAtMost 1 takeByte := by
  rintro ⟨out, _ | ⟨b, bs⟩⟩ hlen
  · simp at hlen
  · exact ⟨fun _ h => (nomatch h), fun _ _ h => by cases h; simp⟩

theorem ReadsAtMost.mono {n k : Nat} {m : Decode α} (hm : ReadsAtMost n m) (hnk : n ≤ k) :
    ReadsAtMost k m := fun d hd =>
  ⟨(hm d (by omega)).1, fun a d' h => by have := (hm d (by omega)).2 a d' h; omega⟩

theorem ReadsAtMost.bind {n k : Nat} {m : Decode α} {f : α → Decode β} (hm : ReadsAtMost n m)
    (hf : ∀ a, ReadsAtMost k (f a)) : ReadsAtMost (n + k) (m >>= f) := by
  intro d hd
  obtain ⟨hrun, hlen⟩ := hm d (by omega)
  cases hres : m.run d with
  | ok a d₁ =>
    have h₁ := hlen a d₁ hres
    obtain ⟨hrun', hlen'⟩ := hf a d₁ (by omega)
    rw [run_bind_of_ok hres]
    exact ⟨hrun', fun b d' h => by have := hlen' b d' h; omega⟩
  | error e d₁ =>
    rw [run_bind_of_error hres]
    exact ⟨fun d' h => hrun d₁ (by cases h; exact hres), fun _ _ h => nomatch h⟩

theorem ReadsAtMost.ite {n : Nat} {c : Prop} [Decidable c] {x y : Decode α}
    (hx : ReadsAtMost n x) (hy : ReadsAtMost n y) : ReadsAtMost n (if c then x else y) := by
  split <;> assumption

end ReadsAtMost

theorem takeBytes_readsAtMost (n : Nat) : ReadsAtMost n (takeBytes n) := by
  induction n with
  | zero => exact readsAtMost_pure _
  | succ n ih =>
    have h : ReadsAtMost (1 + (n + 0)) (takeBytes (n + 1)) :=
      readsAtMost_takeByte.bind fun b => ih.bind fun bs => readsAtMost_pure (b :: bs)
    rwa [Nat.add_zero, Nat.add_comm] at h

theorem pop_readsAtMost (LENGTH : Nat) : ReadsAtMost (LENGTH / 8) (pop LENGTH) :=
  (takeBytes_readsAtMost _).bind fun _ => .ite (readsAtMost_pure _) (readsAtMost_throw _)

theorem registerName_readsAtMost (w : BitVec 8) : ReadsAtMost 0 (registerName w) :=
  .ite (readsAtMost_pure _) <| .ite (readsAtMost_pure _) <| .ite (readsAtMost_pure _) <|
    .ite (readsAtMost_pure _) (readsAtMost_throw _)

theorem ratioText_readsAtMost (code : BitVec 8) : ReadsAtMost 0 (ratioText code) :=
  .ite (readsAtMost_pure _) <| .ite (readsAtMost_pure _) <| .ite (readsAtMost_pure _) <|
    .ite (readsAtMost_pure _) <| .ite (readsAtMost_pure _) (readsAtMost_throw _)

theorem decode_register_readsAtMost : ReadsAtMost 2 decode_register :=
  (pop_readsAtMost 8).bind fun _ => (pop_readsAtMost 8).bind fun _ =>
    (registerName_readsAtMost _).bind fun _ => readsAtMost_emit _

theorem decode_constant_readsAtMost : ReadsAtMost 9 decode_constant :=
  (pop_readsAtMost 8).bind fun _ => (pop_readsAtMost 64).bind fun _ => readsAtMost_emit _

theorem decode_each_parameter_readsAtMost : ReadsAtMost 10 decode_each_parameter :=
  (pop_readsAtMost 8).bind fun _ => .ite (decode_register_readsAtMost.mono (by decide : 2 ≤ 9))
    (.ite decode_constant_readsAtMost ((readsAtMost_throw _).mono (by decide : 0 ≤ 9)))

/-- `decode` reads at most 32 bytes: a memory operand of three constants. -/
theorem decode_readsAtMost : ReadsAtMost 32 decode := by
  have hmemory : ReadsAtMost 31 decode_memory :=
    ((pop_readsAtMost 8).bind ratioText_readsAtMost).bind fun _ => (readsAtMost_emit _).bind
      fun _ => decode_each_parameter_readsAtMost.bind fun _ => (readsAtMost_emit _).bind fun _ =>
      decode_each_parameter_readsAtMost.bind fun _ => (readsAtMost_emit _).bind fun _ =>
      decode_each_parameter_readsAtMost.bind fun _ => readsAtMost_emit _
  exact (pop_readsAtMost 8).bind fun _ =>
    .ite (decode_register_readsAtMost.mono (by decide : 2 ≤ 31))
      (.ite (decode_constant_readsAtMost.mono (by decide : 9 ≤ 31))
        (.ite hmemory ((readsAtMost_throw _).mono (by decide : 0 ≤ 31))))

/-- `decode` runs out of input only on an input shorter than 32 bytes, and 32 is the bound: it
runs out on the first 31 bytes of a memory operand of three constants. -/
theorem decode_runs_out_below_32 :
    (∀ (out : List String) (B : List (BitVec 8)), 32 ≤ B.length →
      ∀ d, decode.run ⟨out, B⟩ ≠ .error .emptyInput d) ∧
    ∃ B : List (BitVec 8), B.length = 31 ∧ ∃ d, decode.run ⟨[], B⟩ = .error .emptyInput d :=
  ⟨fun out B hB => (decode_readsAtMost ⟨out, B⟩ hB).1,
    [0x03, 0x01, 0x02, 0x00, 0, 0, 0, 0, 0, 0, 0, 0, 0x02, 0x00, 0, 0, 0, 0, 0, 0, 0, 0, 0x02, 0x00,
      0, 0, 0, 0, 0, 0, 0], rfl, _, rfl⟩

/-- `pop` does not look at the size of its vector, so `decode` reads past the end of every
input that stops short of a whole operand: on each strict prefix of an operand's bytes, the
empty vector among them, it takes `input[0]` of an empty vector. -/
theorem decode_truncated (out : List String) {op : WireTarget} {B : List (BitVec 8)}
    (hB : B <+: op.bytes) (hne : B ≠ op.bytes) :
    ∃ d, decode.run ⟨out, B⟩ = .error .emptyInput d := by
  obtain ⟨C, hC⟩ := hB
  by_contra hrun
  push_neg at hrun
  have hwhole := decode_wire out op []
  rw [List.append_nil, ← hC, show (⟨out, B ++ C⟩ : Disassembly) = Disassembly.extend ⟨out, B⟩ C
    from rfl, decode_extends _ C hrun] at hwhole
  cases hdec : decode.run ⟨out, B⟩ with
  | ok a d =>
    rw [hdec] at hwhole
    have hinput := congrArg Disassembly.input (EStateM.Result.ok.inj hwhole).2
    simp only [Disassembly.extend, List.append_eq_nil] at hinput
    exact hne (by simpa [hinput.2] using hC)
  | error e d =>
    rw [hdec] at hwhole
    cases hwhole

/-- A register operand cut after its width byte. -/
theorem decode_truncated_register :
    [0x01, 0x64] <+: (WireTarget.register ⟨.FER, 3⟩).bytes ∧
      [0x01, 0x64] ≠ (WireTarget.register ⟨.FER, 3⟩).bytes ∧
      ∃ d, decode.run ⟨[], [0x01, 0x64]⟩ = .error .emptyInput d :=
  ⟨⟨[0x03], rfl⟩, by decide, @decode_truncated [] (.register ⟨.FER, 3⟩) _ ⟨[0x03], rfl⟩ (by decide)⟩

end Disassembler

end Sysdarft
