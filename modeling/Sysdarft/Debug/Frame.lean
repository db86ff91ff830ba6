import Sysdarft.Debug.Log

/-!
# Debug — the frame `debug::log` asks `addr2line` about

Before it names its caller, `debug::log` (`debug.inl`, lines 83–126) takes the third line of the
backtrace and reads it with the regular expression `([^\(]+)\(([^\)]*)\) \[([^\]]+)\]`: the path
of the executable, the offset glibc's `backtrace_symbols` writes between parentheses, and the
runtime address between brackets.  It asks `addr2line` about the offset, or about the runtime
address when the offset is empty, and names the caller from what `addr2line` prints.

Each group of the pattern is a run of characters other than the one that must follow it, so its
greedy match never gives characters back: a group matches the whole run before the next
`(`, `)` or `]` (`breakAt`), and the pattern matches at a position exactly when these runs are
followed by what the pattern asks for (`frameMatch`).  `std::regex_search` returns the match at
the first position where one starts (`frameSearch`).

* `frameMatch_eq_some`: the pattern matches a text exactly when the text starts with a line of
  glibc's form `path(offset) [address]` whose parts fit the groups, and the groups are its parts.
* `frameSearch_eq_some`: the search finds such a line after a prefix at no position of which a
  match starts, and returns its parts.

`logCaller` puts the two halves together: the search on the third line, the call to `addr2line`,
and `callerName` on what it prints.
-/

namespace Sysdarft

/-- The run of characters other than `c` and the text after the `c` that ends it: what a group
`([^c]*)` followed by `c` matches, greedy or not. -/
def breakAt (c : Char) : List Char → Option (List Char × List Char)
  | [] => none
  | d :: s =>
    if d = c then some ([], s) else (breakAt c s).map fun (run, after) => (d :: run, after)

theorem breakAt_eq_some {c : Char} {s run after : List Char} :
    breakAt c s = some (run, after) ↔ c ∉ run ∧ s = run ++ c :: after := by
  induction s generalizing run with
  | nil => simp [breakAt]
  | cons d s ih =>
    cases run with
    | nil => by_cases hd : d = c <;> simp [breakAt, hd]
    | cons e run =>
      by_cases hd : d = c
      · subst hd
        simp only [breakAt, if_true, Option.some.injEq, Prod.mk.injEq, List.nil_eq,
          List.mem_cons, List.cons_append, List.cons.injEq]
        tauto
      · simp only [breakAt, hd, if_false, Option.map_eq_some', Prod.exists, Prod.mk.injEq,
          exists_eq_right_right, exists_eq_right, ih, List.mem_cons, not_or, List.cons_append,
          List.cons.injEq]
        constructor
        · rintro ⟨⟨hc, hs⟩, rfl⟩
          exact ⟨⟨Ne.symm hd, hc⟩, rfl, hs⟩
        · rintro ⟨⟨-, hc⟩, rfl, hs⟩
          exact ⟨⟨hc, hs⟩, rfl⟩

/-- A line of glibc's `backtrace_symbols`: `path(offset) [address]`. -/
def frameLine (executable_path traced_address traced_runtime_address : List Char) : List Char :=
  executable_path ++ '(' :: traced_address ++ ')' :: ' ' :: '[' :: traced_runtime_address ++ [']']

/-- What the groups `[^\(]+`, `[^\)]*` and `[^\]]+` can hold. -/
def FrameGroups (executable_path traced_address traced_runtime_address : List Char) : Prop :=
  executable_path ≠ [] ∧ '(' ∉ executable_path ∧ ')' ∉ traced_address ∧
    traced_runtime_address ≠ [] ∧ ']' ∉ traced_runtime_address

instance (p m a : List Char) : Decidable (FrameGroups p m a) :=
  inferInstanceAs (Decidable (_ ∧ _))

/-- `pattern` at the start of a text: its three groups. -/
def frameMatch (s : List Char) : Option (List Char × List Char × List Char) := do
  let (executable_path, s) ← breakAt '(' s
  let (traced_address, s) ← breakAt ')' s
  match s with
  | ' ' :: '[' :: s =>
    let (traced_runtime_address, _) ← breakAt ']' s
    if executable_path = [] ∨ traced_runtime_address = [] then none
    else pure (executable_path, traced_address, traced_runtime_address)
  | _ => none

theorem frameLine_append (p m a rest : List Char) :
    frameLine p m a ++ rest = p ++ '(' :: (m ++ ')' :: ' ' :: '[' :: (a ++ ']' :: rest)) := by
  simp [frameLine]

/-- The pattern matches a line of glibc's form whose parts fit the groups, whatever follows. -/
theorem frameMatch_frameLine {p m a : List Char} (h : FrameGroups p m a) (rest : List Char) :
    frameMatch (frameLine p m a ++ rest) = some (p, m, a) := by
  obtain ⟨hp, hp', hm, ha, ha'⟩ := h
  have h₁ : breakAt '(' (p ++ '(' :: (m ++ ')' :: ' ' :: '[' :: (a ++ ']' :: rest))) =
      some (p, m ++ ')' :: ' ' :: '[' :: (a ++ ']' :: rest)) := breakAt_eq_some.mpr ⟨hp', rfl⟩
  have h₂ : breakAt ')' (m ++ ')' :: ' ' :: '[' :: (a ++ ']' :: rest)) =
      some (m, ' ' :: '[' :: (a ++ ']' :: rest)) := breakAt_eq_some.mpr ⟨hm, rfl⟩
  have h₃ : breakAt ']' (a ++ ']' :: rest) = some (a, rest) := breakAt_eq_some.mpr ⟨ha', rfl⟩
  rw [frameLine_append]
  simp [frameMatch, h₁, h₂, h₃, hp, ha]

/-- What the pattern matches is a line of glibc's form, and its groups fit. -/
theorem frameLine_of_frameMatch {s p m a : List Char} (h : frameMatch s = some (p, m, a)) :
    FrameGroups p m a ∧ ∃ rest, s = frameLine p m a ++ rest := by
  simp only [frameMatch, Option.bind_eq_bind, Option.bind_eq_some] at h
  obtain ⟨⟨p', s₁⟩, h₁, ⟨m', s₂⟩, h₂, h⟩ := h
  split at h
  next s₃ hs =>
    simp only [Option.bind_eq_some] at h
    obtain ⟨⟨a', rest⟩, h₃, h⟩ := h
    split_ifs at h with hne
    cases h
    rw [not_or] at hne
    obtain ⟨hp, rfl⟩ := breakAt_eq_some.mp h₁
    obtain ⟨hm, rfl⟩ := breakAt_eq_some.mp h₂
    obtain ⟨ha, rfl⟩ := breakAt_eq_some.mp h₃
    exact ⟨⟨hne.1, hp, hm, hne.2, ha⟩, rest, by simp [frameLine_append, ← hs]⟩
  next => cases h

/-- `std::regex_search` with `pattern`: the match at the first position where one starts. -/
def frameSearch : List Char → Option (List Char × List Char × List Char)
  | [] => none
  | c :: s => frameMatch (c :: s) <|> frameSearch s

/-- The pattern matches exactly the texts that start with a line of glibc's form whose parts fit
its groups, and the groups are the line's parts. -/
theorem frameMatch_eq_some {s p m a : List Char} :
    frameMatch s = some (p, m, a) ↔ FrameGroups p m a ∧ ∃ rest, s = frameLine p m a ++ rest :=
  ⟨frameLine_of_frameMatch, fun ⟨hg, rest, hs⟩ => hs ▸ frameMatch_frameLine hg rest⟩

theorem frameMatch_eq_none {s : List Char} :
    frameMatch s = none ↔
      ∀ p m a rest, FrameGroups p m a → s ≠ frameLine p m a ++ rest := by
  constructor
  · rintro h p m a rest hg rfl
    rw [frameMatch_frameLine hg] at h
    cases h
  · intro h
    cases hs : frameMatch s with
    | none => rfl
    | some g =>
      obtain ⟨hg, rest, hrest⟩ := frameLine_of_frameMatch hs
      exact absurd hrest (h _ _ _ rest hg)

/-- The search returns the match at the first position where the pattern matches. -/
theorem frameSearch_eq_some_iff_first {s : List Char} {g : List Char × List Char × List Char} :
    frameSearch s = some g ↔ ∃ pre rest, s = pre ++ rest ∧ frameMatch rest = some g ∧
      ∀ k < pre.length, frameMatch (s.drop k) = none := by
  induction s with
  | nil => simp [frameSearch, frameMatch, breakAt]
  | cons c s ih =>
    cases hc : frameMatch (c :: s) with
    | some g' =>
      simp only [frameSearch, hc, Option.some_orElse, Option.some.injEq]
      constructor
      · rintro rfl
        exact ⟨[], c :: s, rfl, hc, nofun⟩
      · rintro ⟨_ | ⟨d, pre⟩, rest, hs, hm, hfirst⟩
        · rw [List.nil_append] at hs
          rw [← hs, hc] at hm
          exact Option.some.inj hm
        · have := hfirst 0 (Nat.succ_pos _)
          rw [List.drop_zero, hc] at this
          cases this
    | none =>
      simp only [frameSearch, hc, Option.none_orElse, ih]
      constructor
      · rintro ⟨pre, rest, rfl, hm, hfirst⟩
        refine ⟨c :: pre, rest, rfl, hm, fun k hk => ?_⟩
        cases k with
        | zero => exact hc
        | succ k => exact hfirst k (Nat.lt_of_succ_lt_succ hk)
      · rintro ⟨_ | ⟨d, pre⟩, rest, hs, hm, hfirst⟩
        · rw [List.nil_append] at hs
          rw [← hs, hc] at hm
          cases hm
        · obtain ⟨rfl, rfl⟩ := List.cons_eq_cons.mp hs
          exact ⟨pre, rest, rfl, hm, fun k hk => hfirst (k + 1) (Nat.succ_lt_succ hk)⟩

/-- `regex_search` finds the first line of glibc's form whose parts fit the groups: it returns the
line's parts, and no such line starts before it. -/
theorem frameSearch_eq_some {s p m a : List Char} :
    frameSearch s = some (p, m, a) ↔ FrameGroups p m a ∧ ∃ pre rest,
      s = pre ++ (frameLine p m a ++ rest) ∧ ∀ k < pre.length,
        ∀ p' m' a' rest', FrameGroups p' m' a' → s.drop k ≠ frameLine p' m' a' ++ rest' := by
  simp only [frameSearch_eq_some_iff_first, frameMatch_eq_none]
  constructor
  · rintro ⟨pre, rest, rfl, hm, hfirst⟩
    obtain ⟨hg, rest', rfl⟩ := frameLine_of_frameMatch hm
    exact ⟨hg, pre, rest', rfl, hfirst⟩
  · rintro ⟨hg, pre, rest, rfl, hfirst⟩
    exact ⟨pre, _, rfl, frameMatch_frameLine hg rest, hfirst⟩

/-- The caller name `debug::log` prints (lines 83–161), from the lines of the backtrace.  What
`addr2line` prints about an address of an executable (`none` when it exits with a non-zero
status) and what `separate_before_slash` returns are inputs. -/
def logCaller (backtrace_symbols : List (List Char))
    (addr2line : List Char → List Char → Option (List Char))
    (separate_before_slash : List Char → List Char) : Option (Option (List Char)) :=
  let caller_function_backtrace_info := backtrace_symbols.getD 2 []
  if caller_function_backtrace_info.isEmpty then some none
  else
    let addr2line_caller_info := match frameSearch caller_function_backtrace_info with
      | some (executable_path, traced_address, traced_runtime_address) =>
        (addr2line executable_path
          (if traced_address.isEmpty then traced_runtime_address else traced_address)).getD []
      | none => []
    callerName (separate_before_slash addr2line_caller_info)

end Sysdarft
