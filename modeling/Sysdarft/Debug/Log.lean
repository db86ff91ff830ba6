import Mathlib.Algebra.Group.Nat.Basic
import Mathlib.Data.List.Basic

/-!
# Debug — the caller name at the head of a log line

With `debug::verbose` set, `debug::log` (`debug.inl`) starts each line with the name of the
function that called it.  It asks `addr2line` for the name of the third frame of the backtrace,
keeps what `separate_before_slash` returns, erases the newlines, cuts the text at its first `(`,
and prints it through the lambda `shorten_caller_when_fit`: a name of at most `max_length = 64`
characters as it is, a longer one as its first `prefix_length = 5` characters, `"..."` and its
last characters.  `addr2line` is a program and `separate_before_slash` is defined outside the
sources, so the text they give is an input here.

* `shorten_caller_when_fit_fits`: whenever `prefix_length + ellipsis.size()` fits `max_length`,
  as the defaults do, the lambda does not throw, returns a short input as it is and cuts a long
  one to exactly `max_length` characters taken from the input and the ellipsis.
* `callerName_fits`: the name `debug::log` prints is never longer than 64 characters and holds
  no newline, and it prints none exactly when the text is all newlines; a text of more than 64
  characters is cut to its first 5, `"..."` and its last 56.
* `callerName_paren`: the name holds a `(` exactly when the text, its newlines erased, begins
  with one, and such a text is shortened whole.  `debug::log` cuts the parameter list off every other name, but it prints a
  function of an anonymous namespace with its parameters, as `before` is then empty.
-/

namespace Sysdarft

/-- `std::string::substr(pos, count)` at `size_t` arguments; `none` is the `std::out_of_range`
it throws when `pos > size()`. -/
def substr (s : List Char) (pos count : BitVec 64) : Option (List Char) :=
  if pos.toNat ≤ s.length then some ((s.drop pos.toNat).take count.toNat) else none

/-- The lambda `shorten_caller_when_fit` of `debug::log`, with its `size_t` arithmetic. -/
def shorten_caller_when_fit (input : List Char) (max_length prefix_length : BitVec 64)
    (ellipsis : List Char) : Option (List Char) :=
  if BitVec.ofNat 64 input.length ≤ max_length then some input
  else do
    let suffix_length := max_length - prefix_length - BitVec.ofNat 64 ellipsis.length
    let head ← substr input 0 prefix_length
    let suffix ← substr input (BitVec.ofNat 64 input.length - suffix_length) suffix_length
    pure (head ++ ellipsis ++ suffix)

/-- The text `debug::log` shortens (lines 129–160): `before`, the part of `caller` in front of its
first `(`, or `caller` itself when `before` is empty. -/
def callerInput (caller : List Char) : List Char :=
  let before := match caller.findIdx? (· == '(') with
    | some pos => caller.take pos
    | none => []
  if before.isEmpty then caller else before

/-- The caller name `debug::log` prints (lines 126–161), from the text `separate_before_slash`
returned: `none` is the `std::out_of_range` a `substr` throws, `some none` that no name is
printed. -/
def callerName (text : List Char) : Option (Option (List Char)) :=
  let caller := text.filter (· != '\n')
  if caller.isEmpty then some none
  else (shorten_caller_when_fit (callerInput caller) 64 5 "...".toList).map some

/-- A lambda call whose lengths fit does not throw, keeps a short input and cuts a long one to
exactly `max_length` characters: the first `prefix_length`, the ellipsis, and the last ones. -/
theorem shorten_caller_when_fit_fits (input ellipsis : List Char)
    (max_length prefix_length : BitVec 64) (hsize : input.length < 2 ^ 64)
    (hfit : prefix_length.toNat + ellipsis.length ≤ max_length.toNat) :
    ∃ out, shorten_caller_when_fit input max_length prefix_length ellipsis = some out ∧
      out.length ≤ max_length.toNat ∧ (∀ c ∈ out, c ∈ input ∨ c ∈ ellipsis) ∧
      (input.length ≤ max_length.toNat → out = input) ∧
      (max_length.toNat < input.length → out = input.take prefix_length.toNat ++ ellipsis ++
        input.drop
          (input.length - (max_length.toNat - prefix_length.toNat - ellipsis.length))) := by
  have hlen : (BitVec.ofNat 64 input.length).toNat = input.length := Nat.mod_eq_of_lt hsize
  by_cases hshort : input.length ≤ max_length.toNat
  · refine ⟨input, ?_, hshort, fun c hc => .inl hc, fun _ => rfl, fun h => absurd h (by omega)⟩
    rw [shorten_caller_when_fit, if_pos (by rw [BitVec.le_def, hlen]; exact hshort)]
  · have hell : (BitVec.ofNat 64 ellipsis.length).toNat = ellipsis.length :=
      Nat.mod_eq_of_lt (by have := max_length.isLt; omega)
    have hhead : (max_length - prefix_length).toNat = max_length.toNat - prefix_length.toNat :=
      BitVec.toNat_sub_of_le (by rw [BitVec.le_def]; omega)
    have hsuffix : (max_length - prefix_length - BitVec.ofNat 64 ellipsis.length).toNat =
        max_length.toNat - prefix_length.toNat - ellipsis.length := by
      rw [BitVec.toNat_sub_of_le (by rw [BitVec.le_def, hhead, hell]; omega), hhead, hell]
    have hpos : (BitVec.ofNat 64 input.length -
        (max_length - prefix_length - BitVec.ofNat 64 ellipsis.length)).toNat =
        input.length - (max_length.toNat - prefix_length.toNat - ellipsis.length) := by
      rw [BitVec.toNat_sub_of_le (by rw [BitVec.le_def, hsuffix, hlen]; omega), hsuffix, hlen]
    have htail : (input.drop (input.length -
        (max_length.toNat - prefix_length.toNat - ellipsis.length))).length =
        max_length.toNat - prefix_length.toNat - ellipsis.length := by
      rw [List.length_drop]
      omega
    refine ⟨_, ?_, ?_, ?_, fun h => absurd h hshort, fun _ => rfl⟩
    · rw [shorten_caller_when_fit, if_neg (by rw [BitVec.le_def, hlen]; exact hshort)]
      simp only [substr, show (0 : BitVec 64).toNat = 0 from rfl, hpos, hsuffix, Nat.zero_le,
        Nat.sub_le, if_true, List.drop_zero, List.take_of_length_le htail.le]
      rfl
    · simp only [List.length_append, List.length_take, htail]
      omega
    · intro c hc
      simp only [List.mem_append] at hc
      rcases hc with (hc | hc) | hc
      · exact .inl (List.mem_of_mem_take hc)
      · exact .inr hc
      · exact .inl (List.mem_of_mem_drop hc)

/-- A 69-character name is cut to 64. -/
example : shorten_caller_when_fit
    "processor::__InstructionExecutorType__::add(processor::Target const&)".toList 64 5
    "...".toList =
      some "proce...InstructionExecutorType__::add(processor::Target const&)".toList := by
  decide

/-- The text before the first `(` is the longest prefix without one. -/
theorem take_findIdx_paren {caller : List Char} {pos : Nat}
    (h : caller.findIdx? (· == '(') = some pos) :
    caller.take pos = caller.takeWhile (· != '(') := by
  induction caller generalizing pos with
  | nil => cases h
  | cons c cs ih =>
    by_cases hc : c = '('
    · subst hc
      cases h
      rfl
    · rw [List.findIdx?_cons, if_neg (by simpa using hc), List.findIdx?_succ] at h
      obtain ⟨pos', hpos', rfl⟩ := Option.map_eq_some'.mp h
      simp [hc, ih hpos']

/-- `callerInput` without its match: the text is shortened whole when it begins with `(`, as
`before` is then empty, and only its part before the first `(` otherwise. -/
theorem callerInput_eq (caller : List Char) :
    callerInput caller =
      if caller.head? = some '(' then caller else caller.takeWhile (· != '(') := by
  unfold callerInput
  cases hpos : caller.findIdx? (· == '(') with
  | none =>
    have hall : caller.takeWhile (· != '(') = caller :=
      List.takeWhile_eq_self_iff.mpr (by simpa using List.findIdx?_eq_none_iff.mp hpos)
    simp [hall]
  | some pos =>
    simp only [take_findIdx_paren hpos]
    cases caller with
    | nil => rfl
    | cons c cs => by_cases hc : c = '(' <;> simp [hc]

theorem callerInput_sublist (caller : List Char) : List.Sublist (callerInput caller) caller := by
  rw [callerInput_eq]
  split_ifs
  · exact List.Sublist.refl _
  · exact List.takeWhile_sublist _

/-- The name `debug::log` prints is never longer than 64 characters and holds no newline; it
prints none exactly when the text is all newlines, and no `substr` throws.  The text it shortens
is printed as it is when it has at most 64 characters, and as its first 5, `"..."` and its last
56 when it is longer. -/
theorem callerName_fits (text : List Char) (hsize : text.length < 2 ^ 64) :
    ∃ field, callerName text = some field ∧ (field = none ↔ ∀ c ∈ text, c = '\n') ∧
      ∀ name ∈ field, name.length ≤ 64 ∧ '\n' ∉ name ∧
        let input := callerInput (text.filter (· != '\n'))
        (input.length ≤ 64 → name = input) ∧
        (64 < input.length → name = input.take 5 ++ "...".toList ++ input.drop (input.length - 56)) := by
  have hall : (∀ c ∈ text, c = '\n') ↔ (text.filter (· != '\n')).isEmpty := by
    simp [List.isEmpty_iff, List.filter_eq_nil_iff]
  have hnl : '\n' ∉ text.filter (· != '\n') := by simp
  have hlen := (List.length_filter_le (· != '\n') text).trans_lt hsize
  unfold callerName
  generalize text.filter (· != '\n') = caller at hall hnl hlen ⊢
  by_cases hempty : caller.isEmpty
  · exact ⟨none, by rw [if_pos hempty], by simp [hall, hempty], nofun⟩
  rw [if_neg hempty]
  have hin := callerInput_sublist caller
  obtain ⟨out, hout, hout_len, hmem, hshort, hlong⟩ :=
    shorten_caller_when_fit_fits _ "...".toList 64 5 (hin.length_le.trans_lt hlen) (by decide)
  refine ⟨some out, by rw [hout]; rfl, by simp [hall, hempty], ?_⟩
  rintro name ⟨⟩
  refine ⟨hout_len, fun h => ?_, hshort, hlong⟩
  rcases hmem _ h with h | h
  · exact hnl (hin.subset h)
  · simp at h

/-- The name `addr2line` gives for `add`, with its parameter list and newline. -/
theorem callerName_fits_add :
    "processor::__InstructionExecutorType__::add()\n".toList.length < 2 ^ 64 ∧
    ∃ field, callerName "processor::__InstructionExecutorType__::add()\n".toList = some field ∧
      (field = none ↔ ∀ c ∈ "processor::__InstructionExecutorType__::add()\n".toList, c = '\n') ∧
      ∀ name ∈ field, name.length ≤ 64 ∧ '\n' ∉ name ∧
        let input := callerInput
          ("processor::__InstructionExecutorType__::add()\n".toList.filter (· != '\n'))
        (input.length ≤ 64 → name = input) ∧
        (64 < input.length → name = input.take 5 ++ "...".toList ++ input.drop (input.length - 56)) :=
  ⟨by decide, callerName_fits _ (by decide)⟩

/-- The caller name contains a `(` exactly when the text, its newlines erased, begins with one:
`debug::log` cuts the parameter list off every other name, and a text that begins with `(` is
shortened whole. -/
theorem callerName_paren {text name : List Char} (hsize : text.length < 2 ^ 64)
    (h : callerName text = some (some name)) :
    ('(' ∈ name ↔ (text.filter (· != '\n')).head? = some '(') ∧
    ((text.filter (· != '\n')).head? = some '(' →
      shorten_caller_when_fit (text.filter (· != '\n')) 64 5 "...".toList = some name) := by
  have hlen := (List.length_filter_le (· != '\n') text).trans_lt hsize
  unfold callerName at h
  generalize text.filter (· != '\n') = caller at h hlen ⊢
  by_cases hempty : caller.isEmpty
  · rw [if_pos hempty] at h
    cases h
  rw [if_neg hempty, callerInput_eq] at h
  by_cases hhead : caller.head? = some '('
  · rw [if_pos hhead] at h
    obtain ⟨out, hout, -, -, hshort, hlong⟩ :=
      shorten_caller_when_fit_fits caller "...".toList 64 5 hlen (by decide)
    rw [hout] at h
    cases h
    refine ⟨iff_of_true ?_ hhead, fun _ => hout⟩
    obtain ⟨cs, rfl⟩ := List.head?_eq_some_iff.mp hhead
    by_cases hfit : ('(' :: cs).length ≤ (64 : BitVec 64).toNat
    · simp [hshort hfit]
    · simp [hlong (not_le.mp hfit)]
  · rw [if_neg hhead] at h
    obtain ⟨out, hout, -, hmem, -, -⟩ := shorten_caller_when_fit_fits _ "...".toList 64 5
      ((List.takeWhile_sublist _).length_le.trans_lt hlen) (by decide)
    rw [hout] at h
    cases h
    refine ⟨iff_of_false (fun hc => ?_) hhead, fun h => absurd h hhead⟩
    rcases hmem _ hc with hc | hc
    · simpa using List.mem_takeWhile_imp hc
    · exact absurd hc (by decide)

/-- A function of an anonymous namespace is printed with its parameter list. -/
theorem callerName_paren_anonymous :
    "(anonymous namespace)::run(int)\n".toList.length < 2 ^ 64 ∧
    callerName "(anonymous namespace)::run(int)\n".toList =
      some (some "(anonymous namespace)::run(int)".toList) ∧
    ('(' ∈ "(anonymous namespace)::run(int)".toList ↔
      ("(anonymous namespace)::run(int)\n".toList.filter (· != '\n')).head? = some '(') ∧
    (("(anonymous namespace)::run(int)\n".toList.filter (· != '\n')).head? = some '(' →
      shorten_caller_when_fit ("(anonymous namespace)::run(int)\n".toList.filter (· != '\n'))
        64 5 "...".toList = some "(anonymous namespace)::run(int)".toList) :=
  ⟨by decide, by decide, callerName_paren (by decide) (by decide)⟩

end Sysdarft
