import Mathlib.Data.Nat.Digits
import Mathlib.Order.Basic
import Mathlib.Tactic.IntervalCases

/-!
# Assembler — numerals

The assembler reads integers from text with the C library's `strtol`, `strtoll` and `strtoull`,
and writes them with `std::to_string` and `operator<<` (decimal, or `std::hex` with
`std::uppercase`).  Texts are lists of characters, one character a byte of the `std::string`.

* `scanInteger` is the part the three readers share: leading white space, a sign, an optional
  `0x` in base 16, then the longest run of digits.  `strtoll` clamps the value to the range of
  `long long`; `strtoull` saturates a magnitude above `ULLONG_MAX` and negates the others
  modulo `2 ^ 64`.
* `Nat.toDigits_eq` takes the last digit off a rendering, and `scanDigits_toDigits` reads a
  rendering back; from them, `strtoll_toString` and `strtoull_toString` give what the readers
  return on the decimal rendering of any integer, and `strtoull_hexUpper` on `0x` and the
  upper-case hex digits of any value below `2 ^ 64`.
-/

namespace Nat

theorem toDigitsCore_append (b : Nat) (hb : 2 ≤ b) :
    ∀ (fuel n : Nat) (ds : List Char), n < fuel →
      toDigitsCore b fuel n ds = toDigitsCore b fuel n [] ++ ds
  | 0, _, _, h => absurd h (Nat.not_lt_zero _)
  | fuel + 1, n, ds, h => by
    simp only [toDigitsCore]
    split
    · rfl
    · rename_i hq
      have hn : 0 < n := Nat.pos_of_ne_zero fun h => hq (by rw [h, Nat.zero_div])
      have : n / b < fuel := by have := Nat.div_lt_self hn hb; omega
      rw [toDigitsCore_append b hb fuel _ _ this, toDigitsCore_append b hb fuel _ [_] this,
        List.append_assoc, List.singleton_append]

theorem toDigitsCore_fuel (b : Nat) (hb : 2 ≤ b) :
    ∀ (f g n : Nat), n < f → n < g → toDigitsCore b f n [] = toDigitsCore b g n []
  | 0, _, _, h, _ => absurd h (Nat.not_lt_zero _)
  | _, 0, _, _, h => absurd h (Nat.not_lt_zero _)
  | f + 1, g + 1, n, hf, hg => by
    simp only [toDigitsCore]
    split
    · rfl
    · rename_i hq
      have hn : 0 < n := Nat.pos_of_ne_zero fun h => hq (by rw [h, Nat.zero_div])
      have : n / b < n := Nat.div_lt_self hn hb
      rw [toDigitsCore_append b hb f _ _ (by omega), toDigitsCore_append b hb g _ _ (by omega),
        toDigitsCore_fuel b hb f g _ (by omega) (by omega)]

/-- A rendering is the rendering of `n / b` (none for a single digit), then the last digit. -/
theorem toDigits_eq (b : Nat) (hb : 2 ≤ b) (n : Nat) :
    toDigits b n = (if n < b then [] else toDigits b (n / b)) ++ [digitChar (n % b)] := by
  conv_lhs => unfold toDigits toDigitsCore
  by_cases hn : n < b
  · simp [Nat.div_eq_of_lt hn, hn]
  · have hq : n / b ≠ 0 := by rw [Nat.div_ne_zero_iff (by omega)]; omega
    have : n / b < n := Nat.div_lt_self (by omega) (by omega)
    simp only [hq, if_false, hn]
    rw [toDigitsCore_append b hb n _ _ this, toDigits,
      toDigitsCore_fuel b hb n (n / b + 1) _ this (by omega)]

end Nat

namespace Sysdarft

/-! ### Reading -/

/-- `isspace` in the C locale. -/
def isspace (c : Char) : Bool :=
  c = ' ' || c = '\t' || c = '\n' || c = '\x0b' || c = '\x0c' || c = '\r'

/-- The value of the digit `c` in base `base`, as the `strto*` functions read it: `0`–`9`, then
the letters of either case from 10 on; `none` for a character that is no digit of the base. -/
def digitValue (base : Nat) (c : Char) : Option Nat :=
  let v := if '0' ≤ c ∧ c ≤ '9' then some (c.toNat - '0'.toNat)
    else if 'a' ≤ c ∧ c ≤ 'z' then some (c.toNat - 'a'.toNat + 10)
    else if 'A' ≤ c ∧ c ≤ 'Z' then some (c.toNat - 'A'.toNat + 10)
    else none
  v.filter (· < base)

/-- The run of digits at the front of a text, read onto `acc`. -/
def scanDigits (base : Nat) : List Char → Nat → Nat
  | [], acc => acc
  | c :: s, acc =>
    match digitValue base c with
    | some d => scanDigits base s (acc * base + d)
    | none => acc

/-- The `0x` or `0X` that base 16 allows before the digits, when a digit follows it. -/
def skipHexPrefix : List Char → List Char
  | '0' :: x :: c :: s => if (x = 'x' ∨ x = 'X') ∧ (digitValue 16 c).isSome then c :: s
    else '0' :: x :: c :: s
  | s => s

/-- What `strtol`, `strtoll` and `strtoull` share: white space, a sign, then the digits; the
sign and the value of the digits. -/
def scanInteger (base : Nat) (str : List Char) : Bool × Nat :=
  let str := str.dropWhile isspace
  let (negative, str) := match str with
    | '-' :: s => (true, s)
    | '+' :: s => (false, s)
    | s => (false, s)
  let str := if base = 16 then skipHexPrefix str else str
  (negative, scanDigits base str 0)

/-- `strtoll(str, nullptr, base)`: the value, clamped to `[LLONG_MIN, LLONG_MAX]`. -/
def strtoll (str : List Char) (base : Nat) : Int :=
  let (negative, v) := scanInteger base str
  if negative then max (-(v : Int)) (-2 ^ 63) else min (v : Int) (2 ^ 63 - 1)

/-- `strtol(str, nullptr, base)`: `long` is 64 bits wide on the targets of the sources. -/
def strtol (str : List Char) (base : Nat) : Int := strtoll str base

/-- `strtoull(str, nullptr, base)`: a magnitude above `ULLONG_MAX` gives `ULLONG_MAX`, and a
negative one is negated modulo `2 ^ 64`. -/
def strtoull (str : List Char) (base : Nat) : Nat :=
  let (negative, v) := scanInteger base str
  if 2 ^ 64 - 1 < v then 2 ^ 64 - 1 else if negative then (2 ^ 64 - v) % 2 ^ 64 else v

/-! ### Writing -/

/-- `operator<<` of an unsigned value under `std::hex` and `std::uppercase`. -/
def hexUpper (n : Nat) : List Char := (Nat.toDigits 16 n).map Char.toUpper

/-! ### Reading back what was written -/

theorem digitValue_digitChar {b d : Nat} (hd : d < b) (hb : b ≤ 16) :
    digitValue b (Nat.digitChar d) = some d := by
  have : d < 16 := by omega
  interval_cases d <;> simp [digitValue, Nat.digitChar, Option.filter, hd]

theorem digitValue_toUpper_digitChar {b d : Nat} (hd : d < b) (hb : b ≤ 16) :
    digitValue b (Nat.digitChar d).toUpper = some d := by
  have : d < 16 := by omega
  interval_cases d <;> simp [digitValue, Nat.digitChar, Option.filter, hd]

theorem scanDigits_append_of_digits {b : Nat} {xs : List Char}
    (h : ∀ c ∈ xs, (digitValue b c).isSome) (ys : List Char) (acc : Nat) :
    scanDigits b (xs ++ ys) acc = scanDigits b ys (scanDigits b xs acc) := by
  induction xs generalizing acc with
  | nil => rfl
  | cons c xs ih =>
    obtain ⟨d, hd⟩ := Option.isSome_iff_exists.mp (h c (List.mem_cons_self _ _))
    simp only [List.cons_append, scanDigits, hd]
    exact ih (fun c hc => h c (List.mem_cons_of_mem _ hc)) _

/-- Reading back the digits a rendering writes for `n`, in a base up to 16, gives `n`: the
rendering is the one of `n / b`, then the digit of `n % b`. -/
theorem scanDigits_render {b : Nat} (hb : 2 ≤ b) (render : Nat → List Char) (digit : Nat → Char)
    (hrender : ∀ n, render n = (if n < b then [] else render (n / b)) ++ [digit (n % b)])
    (hdigit : ∀ d, d < b → digitValue b (digit d) = some d) (n : Nat) :
    (∀ c ∈ render n, (digitValue b c).isSome) ∧ scanDigits b (render n) 0 = n := by
  induction n using Nat.strong_induction_on with
  | _ n ih =>
    have hlast := hdigit (n % b) (Nat.mod_lt _ (by omega))
    rw [hrender n]
    by_cases hn : n < b
    · rw [Nat.mod_eq_of_lt hn] at hlast
      simp [hn, Nat.mod_eq_of_lt hn, hlast, scanDigits]
    · have := ih (n / b) (Nat.div_lt_self (by omega) (by omega))
      simp only [hn, if_false, List.mem_append, List.mem_singleton]
      refine ⟨fun c hc => ?_, ?_⟩
      · rcases hc with hc | rfl
        · exact this.1 c hc
        · rw [hlast]; rfl
      · rw [scanDigits_append_of_digits this.1, this.2]
        simp only [scanDigits, hlast]
        rw [Nat.mul_comm, Nat.div_add_mod]

theorem scanDigits_toDigits {b : Nat} (hb : 2 ≤ b) (hb' : b ≤ 16) (n : Nat) :
    (∀ c ∈ Nat.toDigits b n, (digitValue b c).isSome) ∧ scanDigits b (Nat.toDigits b n) 0 = n :=
  scanDigits_render hb _ _ (Nat.toDigits_eq b hb) (fun _ hd => digitValue_digitChar hd hb') n

theorem scanDigits_hexUpper (n : Nat) :
    (∀ c ∈ hexUpper n, (digitValue 16 c).isSome) ∧ scanDigits 16 (hexUpper n) 0 = n :=
  scanDigits_render (by decide) hexUpper (fun d => (Nat.digitChar d).toUpper)
    (fun n => by simp only [hexUpper]; rw [Nat.toDigits_eq 16 (by decide) n]; split <;> simp)
    (fun _ hd => digitValue_toUpper_digitChar hd le_rfl) n

theorem toDigits_ne_nil (b n : Nat) (hb : 2 ≤ b) : Nat.toDigits b n ≠ [] := by
  rw [Nat.toDigits_eq b hb]; simp

/-- A digit is no white space and no sign. -/
theorem digit_not_space_sign {b : Nat} {c : Char} (h : (digitValue b c).isSome) :
    isspace c = false ∧ c ≠ '-' ∧ c ≠ '+' := by
  refine ⟨?_, ?_, ?_⟩
  · by_contra hs
    simp only [isspace, Bool.not_eq_false, Bool.or_eq_true, decide_eq_true_eq] at hs
    rcases hs with ((((rfl | rfl) | rfl) | rfl) | rfl) | rfl <;> simp [digitValue] at h
  all_goals rintro rfl; simp [digitValue] at h

/-- `scanInteger` reads a sign and a decimal rendering back. -/
theorem scanInteger_decimal (negative : Prop) [Decidable negative] (m : Nat) :
    scanInteger 10 ((if negative then ['-'] else []) ++ Nat.toDigits 10 m) = (decide negative, m) := by
  obtain ⟨hdigits, hvalue⟩ := scanDigits_toDigits (b := 10) (by decide) (by decide) m
  obtain ⟨c, cs, hcs⟩ := List.exists_cons_of_ne_nil (toDigits_ne_nil 10 m (by decide))
  obtain ⟨hspace, hminus, hplus⟩ := digit_not_space_sign (hdigits c (by simp [hcs]))
  rw [hcs] at hvalue ⊢
  have hspace' : isspace '-' = false := rfl
  by_cases negative <;> simp [scanInteger, List.dropWhile, hspace, hspace', hminus, hplus, hvalue, *]

/-- The decimal rendering of an integer: a `-` for a negative one, then the digits of its
magnitude. -/
theorem toString_int_data (n : Int) :
    (toString n).data = (if n < 0 then ['-'] else []) ++ Nat.toDigits 10 n.natAbs := by
  cases n with
  | ofNat m => rfl
  | negSucc m => rw [if_pos (Int.negSucc_lt_zero m)]; rfl

theorem strtoll_toString (n : Int) :
    strtoll (toString n).data 10 = max (min n (2 ^ 63 - 1)) (-2 ^ 63) := by
  simp only [strtoll, toString_int_data, scanInteger_decimal, decide_eq_true_eq]
  split_ifs <;> omega

theorem strtoull_toString (n : Int) :
    strtoull (toString n).data 10 =
      if 2 ^ 64 ≤ n.natAbs then 2 ^ 64 - 1 else if n < 0 then 2 ^ 64 - n.natAbs else n.natAbs := by
  simp only [strtoull, toString_int_data, scanInteger_decimal, decide_eq_true_eq]
  split_ifs <;> omega

/-- `strtoull` in base 16 reads `0x` and the upper-case hex digits of a value back. -/
theorem strtoull_hexUpper {v : Nat} (hv : v < 2 ^ 64) : strtoull ('0' :: 'x' :: hexUpper v) 16 = v := by
  obtain ⟨hdigits, hvalue⟩ := scanDigits_hexUpper v
  have hne : hexUpper v ≠ [] := by simpa [hexUpper] using toDigits_ne_nil 16 v (by decide)
  obtain ⟨c, cs, hcs⟩ := List.exists_cons_of_ne_nil hne
  have hc := hdigits c (by simp [hcs])
  rw [hcs] at hvalue ⊢
  simp [strtoull, scanInteger, List.dropWhile, isspace, skipHexPrefix, hc, hvalue]
  omega

end Sysdarft
