import Mathlib.Data.List.Basic

/-!
# Assembler — operand text

`parse` in `encode.target.cpp` takes an operand text apart.  It removes the blanks, turns the
text to upper case, and matches it against three `std::regex`es in turn:

* `register_pattern`, `^%(R[0-7]|EXR[0-7]|HER[0-7]|FER[0-7])$`, recognized by
  `is_valid_register`;
* `constant_pattern`, `^\$\((.*)\)$`, recognized by `is_valid_constant`;
* `memory_pattern`, `^\*([1]|[2]|[4]|[8]|[1][6])\((.*),(.*),(.*)\)$`, whose groups
  `memory_match` returns.

Each recognizer is written as the set of texts its pattern matches: in ECMAScript syntax `.`
matches any character but a line terminator (`\n`, `\r`), and the greedy `(.*)` groups of
`memory_pattern` leave the last two commas of the parenthesised text to the separators
(`splitLastTwoCommas`).  A text no pattern matches raises `TargetExpressionError`, whose
message is the prefixed text.
-/

namespace Sysdarft

/-- `TargetExpressionError`, as the message `what()` returns. -/
structure TargetExpressionError where
  what : String
  deriving DecidableEq, Repr

/-- `TargetExpressionError(message)`: the base class puts the message behind a fixed prefix. -/
def TargetExpressionError.ofMessage (message : String) : TargetExpressionError :=
  ⟨"Cannot parse Target expression: " ++ message⟩

/-- `remove_space`: `std::erase(str, ' ')`. -/
def remove_space (str : List Char) : List Char := str.filter (· ≠ ' ')

/-- `capitalization`: `std::toupper` on every character, in the C locale. -/
def capitalization (input : List Char) : List Char := input.map Char.toUpper

/-- A character `.` matches: any but a line terminator. -/
def notLineTerminator (c : Char) : Bool := c ≠ '\n' && c ≠ '\r'

/-- `[0-7]`. -/
def isOctalDigit (c : Char) : Bool := c ∈ ['0', '1', '2', '3', '4', '5', '6', '7']

/-- `is_valid_register`: `register_pattern` matches the whole text. -/
def is_valid_register : List Char → Bool
  | ['%', 'R', d] => isOctalDigit d
  | ['%', 'E', 'X', 'R', d] | ['%', 'H', 'E', 'R', d] | ['%', 'F', 'E', 'R', d] => isOctalDigit d
  | _ => false

/-- `is_valid_constant`: `constant_pattern` matches the whole text. -/
def is_valid_constant : List Char → Bool
  | '$' :: '(' :: rest => rest.getLast? = some ')' && rest.dropLast.all notLineTerminator
  | _ => false

/-- The groups `(.*),(.*),(.*)` of a text: greedy, the first two end at the second-to-last
and at the last comma. -/
def splitLastTwoCommas (body : List Char) : Option (List Char × List Char × List Char) :=
  match body.reverse.span (· ≠ ',') with
  | (off2, ',' :: rest) =>
    match rest.span (· ≠ ',') with
    | (off1, ',' :: base) => some (base.reverse, off1.reverse, off2.reverse)
    | _ => none
  | _ => none

/-- The ratio group `([1]|[2]|[4]|[8]|[1][6])` and the `\(` after it. -/
def memoryRatio : List Char → Option (List Char × List Char)
  | '1' :: '(' :: rest => some (['1'], rest)
  | '2' :: '(' :: rest => some (['2'], rest)
  | '4' :: '(' :: rest => some (['4'], rest)
  | '8' :: '(' :: rest => some (['8'], rest)
  | '1' :: '6' :: '(' :: rest => some (['1', '6'], rest)
  | _ => none

/-- `memory_pattern` on the whole text: its groups ratio, base, first and second offset. -/
def memory_match : List Char → Option (List Char × List Char × List Char × List Char)
  | '*' :: s => do
    let (ratio, body) ← memoryRatio s
    if body.getLast? = some ')' ∧ body.dropLast.all notLineTerminator then
      let (base, off1, off2) ← splitLastTwoCommas body.dropLast
      pure (ratio, base, off1, off2)
    else none
  | _ => none

/-- `is_valid_memory`. -/
def is_valid_memory (input : List Char) : Bool := (memory_match input).isSome

/-- The anonymous `enum` of `parsed_target_t`. -/
inductive ParsedTargetType
  | NOTaValidType
  | REGISTER
  | CONSTANT
  | MEMORY
  deriving DecidableEq, Repr

/-- `parsed_target_t`, its `memory` member flattened. -/
structure parsed_target_t where
  TargetType : ParsedTargetType := .NOTaValidType
  RegisterName : List Char := []
  ConstantExpression : List Char := []
  MemoryAccessRatio : List Char := []
  MemoryBaseAddress : List Char := []
  MemoryOffset1 : List Char := []
  MemoryOffset2 : List Char := []
  deriving DecidableEq, Repr

/-- `parse`.  `regex_search` after a successful `is_valid_memory` always finds the five groups,
so the `matches.size() != 5` branch is never taken and the two calls are one match here. -/
def parse (input : List Char) : Except TargetExpressionError parsed_target_t :=
  let input := capitalization (remove_space input)
  if is_valid_register input then
    .ok { RegisterName := input, TargetType := .REGISTER }
  else if is_valid_constant input then
    .ok { ConstantExpression := input, TargetType := .CONSTANT }
  else
    match memory_match input with
    | some (ratio, base, off1, off2) =>
      .ok { TargetType := .MEMORY, MemoryAccessRatio := ratio, MemoryBaseAddress := base,
            MemoryOffset1 := off1, MemoryOffset2 := off2 }
    | none => .error (.ofMessage (String.mk input))

end Sysdarft
