import Sysdarft.Assembler.Numeral

/-!
# Assembler — hex literals

`process_base16` rewrites the hex literals of a constant's expression into decimal before the
expression goes to `bc`:

1. `replace_all("0X", "0x")` undoes what `capitalization` did to the literals' `x`;
2. a `std::sregex_iterator` collects the matches of `base16_pattern`, `0x[0-9A-Fa-f]+`, from the
   left (`base16_matches`), each with its value by `strtoull(…, 16)`;
3. for each match in turn, `replace_all(match, std::to_string(value))` rewrites the text.

`replace_all` searches with `std::string::find` from a position that moves past each
replacement.  Its loop is given fuel: one round for each character of the text and one more,
since every round but the last replaces a whole occurrence of a non-empty target in the part
of the text not yet searched.

* `replace_all_occurrences`: for a non-empty target the loop stops, since each round leaves
  less text to search, and it replaces every occurrence of the target in the original text,
  from the left and without overlap (`replaceOccurrences`);
* `process_base16_of_no_x`: a text with no `x` and no `X` is left as it is;
* `process_base16_hexUpper`: `0X` and the upper-case hex digits of a value below `2 ^ 64`, as
  the disassembler writes a constant and `capitalization` turns it, become the decimal
  rendering of the value.

`expandHexLiterals` says in one pass what `process_base16` is for.  The code replaces each
match's text wherever it stands, so a literal that begins another one rewrites the front of
it (`encode_constant_prefix_literal` in `Image.lean`).
-/

namespace Sysdarft

/-- The first position from `i` on where `target` starts in `s`, the text that begins at `i`. -/
def findFrom (target : List Char) : List Char → Nat → Option Nat
  | [], i => if target.isPrefixOf [] then some i else none
  | c :: s, i => if target.isPrefixOf (c :: s) then some i else findFrom target s (i + 1)

/-- `input.find(target, pos)`. -/
def find (input target : List Char) (pos : Nat) : Option Nat :=
  findFrom target (input.drop pos) pos

/-- The `while` loop of `replace_all`. -/
def replace_all.loop (target replacement : List Char) : Nat → List Char → Nat → List Char
  | 0, input, _ => input
  | fuel + 1, input, pos =>
    match find input target pos with
    | some p =>
      replace_all.loop target replacement fuel
        (input.take p ++ replacement ++ input.drop (p + target.length)) (p + replacement.length)
    | none => input

/-- The lambda `replace_all` of `process_base16`. -/
def replace_all (input target replacement : List Char) : List Char :=
  if target.isEmpty then input
  else replace_all.loop target replacement (input.length + 1) input 0

/-- `[0-9A-Fa-f]`. -/
def isHexDigit (c : Char) : Bool := (digitValue 16 c).isSome

/-- The matches of `0x[0-9A-Fa-f]+` from the left, each as long as it goes; `run` is the match
being read, reversed.  A character that ends a match is no digit, so no `0`, and cannot start
the next one. -/
def base16_matches : Option (List Char) → List Char → List (List Char)
  | some run, c :: s =>
    if isHexDigit c then base16_matches (some (c :: run)) s
    else run.reverse :: base16_matches none s
  | some run, [] => [run.reverse]
  | none, '0' :: 'x' :: c :: s =>
    if isHexDigit c then base16_matches (some [c, 'x', '0']) s else base16_matches none s
  | none, _ :: s => base16_matches none s
  | none, [] => []

/-- `process_base16`. -/
def process_base16 (input : List Char) : List Char :=
  let input := replace_all input ['0', 'X'] ['0', 'x']
  let data := (base16_matches none input).map fun tag => (tag, strtoull tag 16)
  data.foldl (fun input (tag, rep) => replace_all input tag (toString rep).data) input

/-! ### Searching -/

theorem findFrom_eq_none {target s : List Char} {c : Char} (hc : c ∈ target) (hs : c ∉ s)
    (i : Nat) : findFrom target s i = none := by
  have hprefix : ∀ s, c ∉ s → target.isPrefixOf s = false := fun s hs => by
    by_contra h
    exact hs ((List.isPrefixOf_iff_prefix.mp (by simpa using h)).subset hc)
  induction s generalizing i with
  | nil => simp [findFrom, hprefix [] hs]
  | cons d s ih =>
    simp only [findFrom, hprefix _ hs, if_false, Bool.false_eq_true]
    exact ih (fun h => hs (List.mem_cons_of_mem _ h)) _

theorem findFrom_append (target rest : List Char) (i : Nat) (h : target ≠ []) :
    findFrom target (target ++ rest) i = some i := by
  cases target with
  | nil => exact absurd rfl h
  | cons c t => simp [findFrom, List.isPrefixOf_iff_prefix]

/-- A non-empty target at the front of a text, with one of its characters nowhere after it, is
replaced once. -/
theorem replace_all_append {target replacement rest : List Char} {c : Char} (hc : c ∈ target)
    (hrest : c ∉ rest) :
    replace_all (target ++ rest) target replacement = replacement ++ rest := by
  have hne : target ≠ [] := List.ne_nil_of_mem hc
  obtain ⟨fuel, hfuel⟩ : ∃ fuel, (target ++ rest).length = fuel + 1 := by
    obtain ⟨d, t, rfl⟩ := List.exists_cons_of_ne_nil hne
    exact ⟨t.length + rest.length, by simp only [List.cons_append, List.length_cons, List.length_append]⟩
  have hfirst : find (target ++ rest) target 0 = some 0 := findFrom_append target rest 0 hne
  have hnext : find (replacement ++ rest) target replacement.length = none := by
    rw [find, List.drop_left]
    exact findFrom_eq_none hc hrest _
  simp only [replace_all, List.isEmpty_iff, hne, if_false, hfuel, replace_all.loop, hfirst,
    List.take_zero, List.nil_append, Nat.zero_add, List.drop_left, hnext]

/-! ### Every occurrence, from the left -/

/-- What `replace_all` is for: every occurrence of `target` in the text, from the left and
without overlap, replaced by `replacement`.  What a replacement brings in is not searched. -/
def replaceOccurrences (target replacement : List Char) : List Char → List Char
  | [] => []
  | c :: s =>
    if target ≠ [] ∧ target <+: c :: s then
      replacement ++ replaceOccurrences target replacement ((c :: s).drop target.length)
    else c :: replaceOccurrences target replacement s
termination_by s => s.length
decreasing_by
  all_goals simp_wf
  have := List.length_pos.mpr ‹target ≠ [] ∧ _›.1
  omega

/-- An occurrence `findFrom` reports lies in the searched text. -/
theorem findFrom_bounds {target s : List Char} {i p : Nat} (h : findFrom target s i = some p) :
    i ≤ p ∧ p + target.length ≤ i + s.length := by
  induction s generalizing i with
  | nil =>
    simp only [findFrom] at h
    split_ifs at h with hp
    cases h
    simpa using (List.isPrefixOf_iff_prefix.mp hp).length_le
  | cons c s ih =>
    simp only [findFrom] at h
    split_ifs at h with hp
    · cases h
      simpa using (List.isPrefixOf_iff_prefix.mp hp).length_le
    · have := ih h
      simp only [List.length_cons]
      omega

/-- The text up to the first occurrence `findFrom` reports is kept; the occurrence is
replaced, and the search goes on past it. -/
theorem replaceOccurrences_findFrom {target : List Char} (replacement : List Char)
    (ht : target ≠ []) (s : List Char) (i : Nat) :
    replaceOccurrences target replacement s =
      match findFrom target s i with
      | some p => s.take (p - i) ++ replacement ++
          replaceOccurrences target replacement (s.drop (p - i + target.length))
      | none => s := by
  induction s generalizing i with
  | nil =>
    obtain ⟨t, ts, rfl⟩ := List.exists_cons_of_ne_nil ht
    rw [replaceOccurrences]
    rfl
  | cons c s ih =>
    rw [replaceOccurrences]
    simp only [findFrom]
    by_cases hp : target <+: c :: s
    · rw [if_pos ⟨ht, hp⟩, if_pos (List.isPrefixOf_iff_prefix.mpr hp)]
      simp
    · rw [if_neg fun h => hp h.2, if_neg fun h => hp (List.isPrefixOf_iff_prefix.mp h), ih (i + 1)]
      cases hf : findFrom target s (i + 1) with
      | none => rfl
      | some p =>
        obtain ⟨k, rfl⟩ : ∃ k, p = i + 1 + k :=
          ⟨p - (i + 1), by have := (findFrom_bounds hf).1; omega⟩
        dsimp only
        rw [show i + 1 + k - i = k + 1 by omega, show i + 1 + k - (i + 1) = k by omega,
          show k + 1 + target.length = k + target.length + 1 by omega]
        rfl

/-- The measure of `replace_all`'s loop, the length of the text not yet searched, falls with
each replacement, however long the replacement is. -/
theorem replace_all.measure_lt {target input : List Char} (replacement : List Char)
    {pos p : Nat} (ht : target ≠ []) (h : find input target pos = some p) :
    (input.take p ++ replacement ++ input.drop (p + target.length)).length -
      (p + replacement.length) < input.length - pos := by
  have hfit := findFrom_bounds h
  have hn := List.length_pos.mpr ht
  simp only [List.length_drop, List.length_append, List.length_take] at hfit ⊢
  omega

/-- Run from any position with more fuel than there is text left, the loop replaces every
occurrence from that position on. -/
theorem replace_all.loop_eq {target : List Char} (replacement : List Char) (ht : target ≠ [])
    (fuel : Nat) (input : List Char) (pos : Nat) (hfuel : input.length - pos < fuel) :
    replace_all.loop target replacement fuel input pos =
      input.take pos ++ replaceOccurrences target replacement (input.drop pos) := by
  induction fuel generalizing input pos with
  | zero => omega
  | succ fuel ih =>
    have hspec := replaceOccurrences_findFrom replacement ht (input.drop pos) pos
    rw [← find] at hspec
    rw [replace_all.loop]
    cases hf : find input target pos with
    | none =>
      rw [hf] at hspec
      dsimp only at hspec ⊢
      rw [hspec, List.take_append_drop]
    | some p =>
      rw [hf] at hspec
      dsimp only at hspec ⊢
      have hstep := replace_all.measure_lt replacement ht hf
      obtain ⟨hpos, hfit⟩ := findFrom_bounds hf
      have hp : (input.take p).length = p := by
        simp only [List.length_take, List.length_drop] at hfit ⊢
        omega
      rw [ih _ _ (by omega), hspec, List.take_left' (by simp [hp]), List.drop_left' (by simp [hp]),
        List.drop_drop, ← List.append_assoc, ← List.append_assoc, ← List.take_add,
        Nat.add_sub_cancel' hpos, show pos + (p - pos + target.length) = p + target.length by omega]

theorem replace_all_eq_replaceOccurrences (input : List Char) {target : List Char}
    (replacement : List Char) (ht : target ≠ []) :
    replace_all input target replacement = replaceOccurrences target replacement input := by
  rw [replace_all, if_neg (by simpa using ht), replace_all.loop_eq replacement ht _ _ _ (by omega)]
  rfl

/-- `replace_all` stops: each round that finds the target leaves less text to search, and from
any position fuel beyond what is left is never used.  It replaces every occurrence of the
target in the original text, from the left and without overlap. -/
theorem replace_all_occurrences (input target replacement : List Char) (ht : target ≠ []) :
    (∀ pos p, find input target pos = some p →
      (input.take p ++ replacement ++ input.drop (p + target.length)).length -
        (p + replacement.length) < input.length - pos) ∧
    (∀ fuel pos, input.length - pos < fuel →
      replace_all.loop target replacement fuel input pos =
        input.take pos ++ replaceOccurrences target replacement (input.drop pos)) ∧
    replace_all input target replacement = replaceOccurrences target replacement input :=
  ⟨fun _ _ => replace_all.measure_lt replacement ht,
    fun fuel => replace_all.loop_eq replacement ht fuel input,
    replace_all_eq_replaceOccurrences input replacement ht⟩

/-- A replacement that contains its target: each `a` of the text is doubled once. -/
theorem replace_all_occurrences_doubling :
    replace_all ['a', 'b', 'a'] ['a'] ['a', 'a'] =
        replaceOccurrences ['a'] ['a', 'a'] ['a', 'b', 'a'] ∧
      replace_all ['a', 'b', 'a'] ['a'] ['a', 'a'] = ['a', 'a', 'b', 'a', 'a'] :=
  ⟨(replace_all_occurrences _ _ _ (by decide)).2.2, rfl⟩

/-! ### Hex literals, one pass -/

/-- What `process_base16` is for: each match of `0x[0-9A-Fa-f]+`, from the left and as long
as it goes, replaced by the decimal rendering of the number its digits denote; every other
character is kept.  `run` is the digits of the match being read, reversed. -/
def expandHex : Option (List Char) → List Char → List Char
  | some run, c :: s =>
    if isHexDigit c then expandHex (some (c :: run)) s
    else (toString (scanDigits 16 run.reverse 0)).data ++ c :: expandHex none s
  | some run, [] => (toString (scanDigits 16 run.reverse 0)).data
  | none, '0' :: 'x' :: c :: s =>
    if isHexDigit c then expandHex (some [c]) s else '0' :: 'x' :: c :: expandHex none s
  | none, c :: s => c :: expandHex none s
  | none, [] => []

/-- The hex literals of a text expanded, once `0X` is folded to `0x`. -/
def expandHexLiterals (input : List Char) : List Char :=
  expandHex none (replaceOccurrences ['0', 'X'] ['0', 'x'] input)

/-- A text none of whose characters is in the target is left as it is. -/
theorem replaceOccurrences_of_not_mem {target replacement s : List Char} {c : Char}
    (hc : c ∈ target) (hs : c ∉ s) : replaceOccurrences target replacement s = s := by
  induction s with
  | nil => rw [replaceOccurrences]
  | cons d s ih =>
    rw [replaceOccurrences, if_neg fun h => hs ((h.2.subset hc)),
      ih fun h => hs (List.mem_cons_of_mem _ h)]

/-! ### Texts without hex literals -/

theorem replace_all_of_not_mem {input target replacement : List Char} {c : Char}
    (hc : c ∈ target) (hinput : c ∉ input) : replace_all input target replacement = input := by
  have hnone : find input target 0 = none := findFrom_eq_none hc (by simpa using hinput) 0
  simp only [replace_all, List.isEmpty_iff, List.ne_nil_of_mem hc, if_false, replace_all.loop,
    hnone]

/-! ### The matches -/

theorem base16_matches_of_no_x {s : List Char} (hs : 'x' ∉ s) : base16_matches none s = [] := by
  induction s with
  | nil => rfl
  | cons c s ih =>
    have hx : 'x' ∉ s := fun h => hs (List.mem_cons_of_mem _ h)
    rw [base16_matches.eq_4 _ _ (fun _ _ _ h => hx (by simp [h])), ih hx]

/-- A match being read runs to the end of a text of hex digits. -/
theorem base16_matches_of_hex (run : List Char) {s : List Char} (hs : ∀ c ∈ s, isHexDigit c) :
    base16_matches (some run) s = [run.reverse ++ s] := by
  induction s generalizing run with
  | nil => simp [base16_matches]
  | cons c s ih =>
    rw [base16_matches, if_pos (hs c (List.mem_cons_self _ _)),
      ih _ fun d hd => hs d (List.mem_cons_of_mem _ hd)]
    simp

/-! ### What `process_base16` does -/

theorem process_base16_of_no_x {input : List Char} (hx : 'x' ∉ input) (hX : 'X' ∉ input) :
    process_base16 input = input := by
  simp only [process_base16, replace_all_of_not_mem (List.mem_cons_of_mem _ (List.mem_singleton_self 'X')) hX,
    base16_matches_of_no_x hx, List.map_nil, List.foldl_nil]

/-- `0X` and the upper-case hex digits of a value below `2 ^ 64` become its decimal rendering. -/
theorem process_base16_hexUpper {v : Nat} (hv : v < 2 ^ 64) :
    process_base16 ('0' :: 'X' :: hexUpper v) = (toString v).data := by
  have hhex : ∀ c ∈ hexUpper v, isHexDigit c := (scanDigits_hexUpper v).1
  have hX : 'X' ∉ hexUpper v := fun h => absurd (hhex _ h) (by decide)
  have hne : hexUpper v ≠ [] := by simpa [hexUpper] using toDigits_ne_nil 16 v (by decide)
  obtain ⟨c, cs, hcs⟩ := List.exists_cons_of_ne_nil hne
  have hfix : replace_all ('0' :: 'X' :: hexUpper v) ['0', 'X'] ['0', 'x'] =
      '0' :: 'x' :: hexUpper v :=
    @replace_all_append ['0', 'X'] ['0', 'x'] _ 'X' (by simp) hX
  have hmatches : base16_matches none ('0' :: 'x' :: hexUpper v) = ['0' :: 'x' :: hexUpper v] := by
    rw [hcs, base16_matches.eq_3, if_pos (hhex c (by simp [hcs])),
      base16_matches_of_hex _ fun d hd => hhex d (by simp [hcs, hd])]
    rfl
  simp only [process_base16, hfix, hmatches, List.map, List.foldl, strtoull_hexUpper hv]
  simpa using @replace_all_append ('0' :: 'x' :: hexUpper v) (toString v).data [] '0' (by simp)
    (by simp)

end Sysdarft
