import Sysdarft.Assembler.Numeral

/-!
# Assembler — the calculator behind `execute_bc`

`execute_bc` hands a constant's expression to `bc` with `scale=0` and returns what `bc`
prints.  `bc` is not part of the repository; what the assembler relies on is its integer
arithmetic, which §4.1 of the spec describes: "an integer arithmetic expression over
`+ - * / % ^ ( )` and literals".  `bcEvaluate` is that arithmetic with `bc`'s precedence and
`scale=0` rounding:

* `+` and `-` bind weakest, then `*`, `/` and `%`, all to the left; `/` and `%` truncate
  toward zero (`Int.tdiv`, `Int.tmod`);
* `^` binds tighter and to the right, and unary `-` tighter still (`-2^2` is 4); a negative
  exponent divides 1 by the power, truncated;
* a literal is a run of decimal digits.

A text outside this grammar, and a division by zero, has no value.  The evaluator is recursive
descent with one function a precedence level; the fuel, eight levels a character, outlasts the
deepest descent a text of that length can cause (five levels for each `(`).

`bcEvaluate_toString`: the decimal rendering of any integer evaluates to that integer.
-/

namespace Sysdarft

/-- A decimal digit. -/
def isDecimalDigit (c : Char) : Bool := (digitValue 10 c).isSome

/-- A decimal literal at the front of the text. -/
def bcNumber (s : List Char) : Option (Int × List Char) :=
  let digits := s.takeWhile isDecimalDigit
  if digits = [] then none else some (scanDigits 10 digits 0, s.dropWhile isDecimalDigit)

/-- `a ^ b` at `scale=0`. -/
def bcRaise (a b : Int) : Option Int :=
  if 0 ≤ b then some (a ^ b.toNat)
  else if a = 0 then none
  else some ((1 : Int).tdiv (a ^ b.natAbs))

mutual
/-- `expr := term (('+' | '-') term)*`. -/
def bcExpr : Nat → List Char → Option (Int × List Char)
  | 0, _ => none
  | fuel + 1, s => do
    let (a, s) ← bcTerm fuel s
    bcExprRest fuel a s

/-- The `(('+' | '-') term)*` of `expr`, onto the value `a` so far. -/
def bcExprRest : Nat → Int → List Char → Option (Int × List Char)
  | 0, _, _ => none
  | fuel + 1, a, '+' :: s => do
    let (b, s) ← bcTerm fuel s
    bcExprRest fuel (a + b) s
  | fuel + 1, a, '-' :: s => do
    let (b, s) ← bcTerm fuel s
    bcExprRest fuel (a - b) s
  | _ + 1, a, s => some (a, s)

/-- `term := power (('*' | '/' | '%') power)*`. -/
def bcTerm : Nat → List Char → Option (Int × List Char)
  | 0, _ => none
  | fuel + 1, s => do
    let (a, s) ← bcPower fuel s
    bcTermRest fuel a s

/-- The `(('*' | '/' | '%') power)*` of `term`, onto the value `a` so far. -/
def bcTermRest : Nat → Int → List Char → Option (Int × List Char)
  | 0, _, _ => none
  | fuel + 1, a, '*' :: s => do
    let (b, s) ← bcPower fuel s
    bcTermRest fuel (a * b) s
  | fuel + 1, a, '/' :: s => do
    let (b, s) ← bcPower fuel s
    if b = 0 then none else bcTermRest fuel (a.tdiv b) s
  | fuel + 1, a, '%' :: s => do
    let (b, s) ← bcPower fuel s
    if b = 0 then none else bcTermRest fuel (a.tmod b) s
  | _ + 1, a, s => some (a, s)

/-- `power := unary ('^' power)?`. -/
def bcPower : Nat → List Char → Option (Int × List Char)
  | 0, _ => none
  | fuel + 1, s => do
    let (a, s) ← bcUnary fuel s
    match s with
    | '^' :: s => do
      let (b, s) ← bcPower fuel s
      let v ← bcRaise a b
      pure (v, s)
    | s => some (a, s)

/-- `unary := '-' unary | primary`. -/
def bcUnary : Nat → List Char → Option (Int × List Char)
  | 0, _ => none
  | fuel + 1, '-' :: s => do
    let (a, s) ← bcUnary fuel s
    pure (-a, s)
  | fuel + 1, s => bcPrimary fuel s

/-- `primary := '(' expr ')' | literal`. -/
def bcPrimary : Nat → List Char → Option (Int × List Char)
  | 0, _ => none
  | fuel + 1, '(' :: s => do
    let (a, s) ← bcExpr fuel s
    match s with
    | ')' :: s => some (a, s)
    | _ => none
  | _ + 1, s => bcNumber s
end

/-- The value `bc` prints for a whole text, when it has one. -/
def bcEvaluate (input : List Char) : Option Int :=
  match bcExpr (8 * (input.length + 1)) input with
  | some (n, []) => some n
  | _ => none

/-! ### A whole text at every level -/

theorem bcExpr_of_term {fuel : Nat} {s : List Char} {a : Int}
    (h : bcTerm (fuel + 1) s = some (a, [])) : bcExpr (fuel + 2) s = some (a, []) := by
  simp only [bcExpr, h]
  rfl

theorem bcTerm_of_power {fuel : Nat} {s : List Char} {a : Int}
    (h : bcPower (fuel + 1) s = some (a, [])) : bcTerm (fuel + 2) s = some (a, []) := by
  simp only [bcTerm, h]
  rfl

theorem bcPower_of_unary {fuel : Nat} {s : List Char} {a : Int}
    (h : bcUnary fuel s = some (a, [])) : bcPower (fuel + 1) s = some (a, []) := by
  simp only [bcPower, h]
  rfl

/-- A text the unary level reads whole, the whole expression reads with the same value. -/
theorem bcExpr_of_unary {fuel : Nat} {s : List Char} {a : Int}
    (h : bcUnary fuel s = some (a, [])) : bcExpr (fuel + 3) s = some (a, []) :=
  bcExpr_of_term (bcTerm_of_power (bcPower_of_unary h))

/-! ### Numerals -/

theorem bcNumber_toDigits (m : Nat) : bcNumber (Nat.toDigits 10 m) = some ((m : Int), []) := by
  obtain ⟨hdigits, hvalue⟩ := scanDigits_toDigits (b := 10) (by decide) (by decide) m
  have hall : ∀ c ∈ Nat.toDigits 10 m, isDecimalDigit c := hdigits
  simp [bcNumber, List.takeWhile_eq_self_iff.mpr hall, List.dropWhile_eq_nil_iff.mpr hall,
    toDigits_ne_nil 10 m (by decide), hvalue]

theorem bcUnary_toDigits (fuel m : Nat) :
    bcUnary (fuel + 2) (Nat.toDigits 10 m) = some ((m : Int), []) := by
  obtain ⟨c, cs, hcs⟩ := List.exists_cons_of_ne_nil (toDigits_ne_nil 10 m (by decide))
  have hc : isDecimalDigit c := (scanDigits_toDigits (b := 10) (by decide) (by decide) m).1 c
    (by simp [hcs])
  have hminus : c ≠ '-' := by rintro rfl; exact absurd hc (by decide)
  have hparen : c ≠ '(' := by rintro rfl; exact absurd hc (by decide)
  rw [← bcNumber_toDigits, hcs, bcUnary.eq_3 _ _ (by simp [hminus]),
    bcPrimary.eq_3 _ _ (by simp [hparen])]

theorem bcUnary_neg_toDigits (fuel m : Nat) :
    bcUnary (fuel + 3) ('-' :: Nat.toDigits 10 m) = some (-(m : Int), []) := by
  simp only [bcUnary, bcUnary_toDigits]
  rfl

/-- `bc` prints back the decimal rendering of an integer. -/
theorem bcEvaluate_toString (n : Int) : bcEvaluate (toString n).data = some n := by
  obtain ⟨j, hj⟩ : ∃ j, 8 * ((toString n).data.length + 1) = j + 6 := ⟨_, rfl⟩
  rw [bcEvaluate, hj, toString_int_data]
  rcases lt_or_le n 0 with hn | hn
  · rw [if_pos hn, List.singleton_append,
      bcExpr_of_unary (bcUnary_neg_toDigits j n.natAbs), Int.ofNat_natAbs_of_nonpos hn.le]
    simp
  · rw [if_neg (not_lt.mpr hn), List.nil_append,
      bcExpr_of_unary (bcUnary_toDigits (j + 1) n.natAbs), Int.natAbs_of_nonneg hn]

end Sysdarft
