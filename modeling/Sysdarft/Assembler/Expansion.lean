import Sysdarft.Assembler.Base16

/-!
# Assembler — where the expansion of hex literals is right

`process_base16` replaces the text of each hex literal wherever it stands, one literal after the
other, and not each literal where it was matched.  A text is laid out around its literals
(`HexLayout`), and each replacement is followed segment by segment: a literal is replaced only
where its own text stands, unless it is the beginning of another literal.

* `base16_matches_layout`: the matches of `0x[0-9A-Fa-f]+` in a laid-out text are its literals;
* `expandHex_layout`: the one-pass expansion renders each literal in decimal and keeps the gaps;
* `process_base16_expands`: when no literal is the beginning of a different one and every value
  is below `2 ^ 64`, `process_base16` is the one-pass expansion `expandHexLiterals`.

Where a literal is the beginning of another, it is not (`encode_constant_prefix_literal` in
`Image.lean`).
-/

namespace Sysdarft

/-- The text of a hex literal with the digits `h`. -/
def hexLiteral (h : List Char) : List Char := '0' :: 'x' :: h

/-- The decimal rendering of the number the hex digits `h` denote. -/
def hexDecimal (h : List Char) : List Char := (toString (scanDigits 16 h 0)).data

/-- Each literal's digits, written by `f`, and the gap after it. -/
def layoutText (f : List Char → List Char) : List (List Char × List Char) → List Char
  | [] => []
  | (h, u) :: ps => f h ++ u ++ layoutText f ps

/-- The literals are whole matches of `0x[0-9A-Fa-f]+`: non-empty runs of hex digits, each
followed by a gap with no `x` and no `X` that ends the text or begins with no hex digit. -/
def Laid : List (List Char × List Char) → Prop
  | [] => True
  | (h, u) :: ps => h ≠ [] ∧ (∀ c ∈ h, isHexDigit c) ∧ 'x' ∉ u ∧ 'X' ∉ u ∧
      (match u with
       | [] => ps = []
       | c :: _ => isHexDigit c = false) ∧ Laid ps

/-- A text laid out around its hex literals, each written `0x` or, as `capitalization` leaves
them, `0X`. -/
structure HexLayout where
  first : List Char
  marker : Char
  literals : List (List Char × List Char)
  marker_x : marker = 'x' ∨ marker = 'X'
  first_plain : 'x' ∉ first ∧ 'X' ∉ first
  laid : Laid literals

def HexLayout.text (L : HexLayout) : List Char :=
  L.first ++ layoutText (fun h => '0' :: L.marker :: h) L.literals

/-- No literal is the beginning of a different one. -/
def HexLayout.PrefixFree (L : HexLayout) : Prop :=
  ∀ p ∈ L.literals, ∀ q ∈ L.literals, p.1 <+: q.1 → p.1 = q.1

/-! ### Characters -/

theorem isHexDigit_ne_x {c : Char} (h : isHexDigit c) : c ≠ 'x' ∧ c ≠ 'X' := by
  constructor <;> rintro rfl <;> exact absurd h (by decide)

theorem hexDecimal_ne_x (h : List Char) : ∀ c ∈ hexDecimal h, c ≠ 'x' ∧ c ≠ 'X' := by
  intro c hc
  have hdigit := (scanDigits_toDigits (b := 10) (by decide) (by decide) _).1 c hc
  constructor <;> rintro rfl <;> exact absurd hdigit (by decide)

theorem zero_head_ne (t : List Char) : ∀ c ∈ ('0' :: t).head?, c ≠ 'x' ∧ c ≠ 'X' := by
  intro c hc
  simp only [List.head?_cons, Option.mem_def, Option.some.injEq] at hc
  subst hc
  decide

/-- What the next segment of a layout begins with is no `y`, when no rendering begins with one
and no gap has one. -/
theorem layoutText_head {y : Char} {f : List Char → List Char} (hf : ∀ h, ∀ c ∈ (f h).head?, c ≠ y)
    {ps : List (List Char × List Char)} (hps : ∀ p ∈ ps, y ∉ p.2) :
    ∀ c ∈ (layoutText f ps).head?, c ≠ y := by
  induction ps with
  | nil => simp [layoutText]
  | cons p ps ih =>
    intro c hc
    simp only [layoutText, List.head?_append, Option.mem_def, Option.or_eq_some] at hc
    rcases hc with (hc | ⟨-, hc⟩) | ⟨-, hc⟩
    · exact hf _ c hc
    · exact fun h => hps p (List.mem_cons_self _ _) (h ▸ List.mem_of_mem_head? hc)
    · exact ih (fun q hq => hps q (List.mem_cons_of_mem _ hq)) c hc

/-- No `y` begins a text that has none before a rest that does not begin with one. -/
theorem head_append_ne {y : Char} {a rest : List Char} (ha : y ∉ a)
    (hrest : ∀ c ∈ rest.head?, c ≠ y) : ∀ c ∈ (a ++ rest).head?, c ≠ y := by
  cases a with
  | nil => exact hrest
  | cons d a =>
    rintro c hc rfl
    exact ha (by simp only [List.cons_append, List.head?_cons, Option.mem_def,
      Option.some.injEq] at hc; simp [hc])

theorem Laid.mem {ps : List (List Char × List Char)} (hl : Laid ps) {p : List Char × List Char}
    (hp : p ∈ ps) : p.1 ≠ [] ∧ (∀ c ∈ p.1, isHexDigit c) ∧ 'x' ∉ p.2 ∧ 'X' ∉ p.2 := by
  induction ps with
  | nil => cases hp
  | cons q ps ih =>
    obtain ⟨hne, hh, hx, hX, -, hl'⟩ := hl
    rcases List.mem_cons.mp hp with rfl | hp
    · exact ⟨hne, hh, hx, hX⟩
    · exact ih hl' hp

/-- What follows a literal begins with no hex digit, no `x` and no `X`. -/
theorem Laid.after {h u : List Char} {ps : List (List Char × List Char)} (hl : Laid ((h, u) :: ps))
    (f : List Char → List Char) :
    ∀ c ∈ (u ++ layoutText f ps).head?, isHexDigit c = false ∧ c ≠ 'x' ∧ c ≠ 'X' := by
  obtain ⟨-, -, hx, hX, hend, -⟩ := hl
  cases u with
  | nil => subst hend; simp [layoutText]
  | cons d u =>
    intro c hc
    simp only [List.cons_append, List.head?_cons, Option.mem_def, Option.some.injEq] at hc
    subst hc
    exact ⟨hend, fun h => hx (h ▸ List.mem_cons_self _ _), fun h => hX (h ▸ List.mem_cons_self _ _)⟩

theorem layoutText_congr {f g : List Char → List Char} {ps : List (List Char × List Char)}
    (hfg : ∀ p ∈ ps, f p.1 = g p.1) : layoutText f ps = layoutText g ps := by
  induction ps with
  | nil => rfl
  | cons p ps ih =>
    simp only [layoutText, hfg p (List.mem_cons_self _ _),
      ih fun q hq => hfg q (List.mem_cons_of_mem _ hq)]

/-! ### Replacing segment by segment -/

/-- A target `0y…` is not found in a text without `y`, nor across its end when what follows
does not begin with `y`. -/
theorem replaceOccurrences_gap {y : Char} {t R a rest : List Char} (ha : y ∉ a)
    (hrest : ∀ c ∈ rest.head?, c ≠ y) :
    replaceOccurrences ('0' :: y :: t) R (a ++ rest) =
      a ++ replaceOccurrences ('0' :: y :: t) R rest := by
  induction a with
  | nil => rfl
  | cons c a ih =>
    have hnot : ¬ '0' :: y :: t <+: c :: (a ++ rest) := fun ⟨t', h⟩ =>
      head_append_ne (fun h => ha (List.mem_cons_of_mem _ h)) hrest y
        (by simp only [List.cons_append, List.cons.injEq] at h; simp [← h.2]) rfl
    rw [List.cons_append, replaceOccurrences, if_neg fun h => hnot h.2,
      ih fun h => ha (List.mem_cons_of_mem _ h), List.cons_append]

theorem replaceOccurrences_hit {T : List Char} (R rest : List Char) (hT : T ≠ []) :
    replaceOccurrences T R (T ++ rest) = R ++ replaceOccurrences T R rest := by
  obtain ⟨c, T', rfl⟩ := List.exists_cons_of_ne_nil hT
  rw [List.cons_append, replaceOccurrences, if_pos ⟨hT, List.prefix_append _ _⟩,
    ← List.cons_append, List.drop_left]

/-- A run of hex digits that is the beginning of hex digits followed by no hex digit is the
beginning of those digits. -/
theorem prefix_of_hex {h₀ h v : List Char} (hh₀ : ∀ c ∈ h₀, isHexDigit c)
    (hv : ∀ c ∈ v.head?, isHexDigit c = false) (hp : h₀ <+: h ++ v) : h₀ <+: h := by
  induction h generalizing h₀ with
  | nil =>
    cases h₀ with
    | nil => exact List.nil_prefix
    | cons c h₀ =>
      obtain ⟨t, ht⟩ := hp
      cases v with
      | nil => cases ht
      | cons d v =>
        simp only [List.nil_append, List.cons_append, List.cons.injEq] at ht
        exact absurd (hh₀ c (List.mem_cons_self _ _)) (by simp [ht.1, hv d rfl])
  | cons d h ih =>
    rcases List.prefix_cons_iff.mp hp with rfl | ⟨t, rfl, ht⟩
    · exact List.nil_prefix
    · exact List.prefix_cons_iff.mpr
        (.inr ⟨t, rfl, ih (fun c hc => hh₀ c (List.mem_cons_of_mem _ hc)) ht⟩)

/-- Another literal's text is not found in a literal it does not begin. -/
theorem replaceOccurrences_miss {h₀ h v R : List Char} (hh₀ : ∀ c ∈ h₀, isHexDigit c)
    (hh : ∀ c ∈ h, isHexDigit c) (hv : ∀ c ∈ v.head?, isHexDigit c = false ∧ c ≠ 'x')
    (hne : ¬ h₀ <+: h) :
    replaceOccurrences (hexLiteral h₀) R (hexLiteral h ++ v) =
      hexLiteral h ++ replaceOccurrences (hexLiteral h₀) R v := by
  have hzero : ¬ hexLiteral h₀ <+: hexLiteral h ++ v := fun hp =>
    hne (prefix_of_hex hh₀ (fun c hc => (hv c hc).1)
      (List.cons_prefix_cons.mp (List.cons_prefix_cons.mp hp).2).2)
  have hgap : 'x' ∉ h := fun hx => (isHexDigit_ne_x (hh _ hx)).1 rfl
  simp only [hexLiteral, List.cons_append] at hzero ⊢
  rw [replaceOccurrences, if_neg fun hp => hzero hp.2, replaceOccurrences,
    if_neg fun hp => by simp at hp, replaceOccurrences_gap hgap fun c hc => (hv c hc).2]

/-! ### One literal after the other -/

/-- The literals replaced so far: those whose text is in `done`. -/
def stage (done : List (List Char)) (h : List Char) : List Char :=
  if hexLiteral h ∈ done then hexDecimal h else hexLiteral h

theorem stage_of_mem {done : List (List Char)} {h : List Char} (hd : hexLiteral h ∈ done) :
    stage done h = hexDecimal h := if_pos hd

theorem stage_of_not_mem {done : List (List Char)} {h : List Char} (hd : hexLiteral h ∉ done) :
    stage done h = hexLiteral h := if_neg hd

theorem stage_head (done : List (List Char)) (h : List Char) :
    ∀ c ∈ (stage done h).head?, c ≠ 'x' ∧ c ≠ 'X' := by
  unfold stage
  split
  · exact fun c hc => hexDecimal_ne_x h c (List.mem_of_mem_head? hc)
  · intro c hc
    simp only [hexLiteral, List.head?_cons, Option.mem_def, Option.some.injEq] at hc
    subst hc
    decide

/-- `replace_all` of one literal's text by its decimal rendering, over a text where the literals
in `done` are already replaced, replaces that literal too and nothing else, when it begins no
other literal. -/
theorem replaceOccurrences_stage {h₀ : List Char} (hh₀ : h₀ ≠ [] ∧ ∀ c ∈ h₀, isHexDigit c)
    (done : List (List Char)) {ps : List (List Char × List Char)} (hl : Laid ps)
    (hfree : ∀ p ∈ ps, h₀ <+: p.1 → h₀ = p.1) :
    replaceOccurrences (hexLiteral h₀) (hexDecimal h₀) (layoutText (stage done) ps) =
      layoutText (stage (done ++ [hexLiteral h₀])) ps := by
  induction ps with
  | nil => rw [layoutText, replaceOccurrences]; rfl
  | cons p ps ih =>
    obtain ⟨h, u⟩ := p
    have hv := Laid.after hl (stage done)
    obtain ⟨-, hh, hx, -, -, hl'⟩ := hl
    have hrest : ∀ c ∈ (layoutText (stage done) ps).head?, c ≠ 'x' :=
      layoutText_head (fun h c hc => (stage_head done h c hc).1) fun q hq => (hl'.mem hq).2.2.1
    have hgap : replaceOccurrences (hexLiteral h₀) (hexDecimal h₀)
        (u ++ layoutText (stage done) ps) =
          u ++ layoutText (stage (done ++ [hexLiteral h₀])) ps := by
      rw [hexLiteral, replaceOccurrences_gap hx hrest, ← hexLiteral,
        ih hl' fun q hq => hfree q (List.mem_cons_of_mem _ hq)]
    simp only [layoutText, List.append_assoc]
    by_cases hd : hexLiteral h ∈ done
    · have hdec : 'x' ∉ hexDecimal h := fun hx' => (hexDecimal_ne_x h _ hx').1 rfl
      rw [stage_of_mem hd, stage_of_mem (List.mem_append_left _ hd), hexLiteral,
        replaceOccurrences_gap hdec fun c hc => (hv c hc).2.1, ← hexLiteral, hgap]
    · by_cases heq : h = h₀
      · subst heq
        rw [stage_of_not_mem hd, stage_of_mem (List.mem_append_right _ (List.mem_singleton_self _)),
          replaceOccurrences_hit (T := hexLiteral h) _ _ (List.cons_ne_nil _ _), hgap]
      · have hlit : hexLiteral h ∉ done ++ [hexLiteral h₀] := by
          simp only [List.mem_append, List.mem_singleton, not_or]
          exact ⟨hd, fun h' => heq (by simpa [hexLiteral] using h')⟩
        have hne : ¬ h₀ <+: h := fun hp => heq (hfree _ (List.mem_cons_self _ _) hp).symm
        rw [stage_of_not_mem hd, stage_of_not_mem hlit,
          replaceOccurrences_miss hh₀.2 hh (fun c hc => ⟨(hv c hc).1, (hv c hc).2.1⟩) hne, hgap]

/-! ### Folding `0X` -/

/-- Folding `0X` to `0x` writes every literal `0x` and changes nothing else. -/
theorem replaceOccurrences_fold {m : Char} (hm : m = 'x' ∨ m = 'X')
    {ps : List (List Char × List Char)} (hl : Laid ps) :
    replaceOccurrences ['0', 'X'] ['0', 'x'] (layoutText (fun h => '0' :: m :: h) ps) =
      layoutText hexLiteral ps := by
  induction ps with
  | nil => rw [layoutText, replaceOccurrences]; rfl
  | cons p ps ih =>
    obtain ⟨h, u⟩ := p
    obtain ⟨-, hh, -, hX, -, hl'⟩ := hl
    have hrest : ∀ c ∈ (layoutText (fun h => '0' :: m :: h) ps).head?, c ≠ 'X' :=
      layoutText_head (fun h c hc => (zero_head_ne _ c hc).2) fun q hq => (hl'.mem hq).2.2.2
    have hdigits : 'X' ∉ h ++ u := by
      simpa [hX] using fun hmem => (isHexDigit_ne_x (hh _ hmem)).2 rfl
    simp only [layoutText, List.cons_append, List.append_assoc]
    rcases hm with rfl | rfl
    · rw [show '0' :: 'x' :: (h ++ (u ++ layoutText (fun h => '0' :: 'x' :: h) ps)) =
          ('0' :: 'x' :: (h ++ u)) ++ layoutText (fun h => '0' :: 'x' :: h) ps by simp,
        replaceOccurrences_gap (by simpa using hdigits) hrest, ih hl']
      simp [hexLiteral]
    · rw [show '0' :: 'X' :: (h ++ (u ++ layoutText (fun h => '0' :: 'X' :: h) ps)) =
          ['0', 'X'] ++ ((h ++ u) ++ layoutText (fun h => '0' :: 'X' :: h) ps) by simp,
        replaceOccurrences_hit _ _ (List.cons_ne_nil _ _), replaceOccurrences_gap hdigits hrest,
        ih hl']
      simp [hexLiteral]

/-! ### Finding the literals -/

theorem base16_matches_gap {a rest : List Char} (ha : 'x' ∉ a) (hrest : ∀ c ∈ rest.head?, c ≠ 'x') :
    base16_matches none (a ++ rest) = base16_matches none rest := by
  induction a with
  | nil => rfl
  | cons c a ih =>
    have ha' : 'x' ∉ a := fun h => ha (List.mem_cons_of_mem _ h)
    rw [List.cons_append, base16_matches.eq_4 _ _ fun d s _ hs =>
      head_append_ne ha' hrest 'x' (by rw [hs]; rfl) rfl, ih ha']

theorem base16_matches_run (run : List Char) {h : List Char} (hh : ∀ c ∈ h, isHexDigit c)
    (v : List Char) :
    base16_matches (some run) (h ++ v) = base16_matches (some (h.reverse ++ run)) v := by
  induction h generalizing run with
  | nil => rfl
  | cons c h ih =>
    rw [List.cons_append, base16_matches, if_pos (hh c (List.mem_cons_self _ _)),
      ih _ fun d hd => hh d (List.mem_cons_of_mem _ hd)]
    simp

/-- The matches of `0x[0-9A-Fa-f]+` in a laid-out text are its literals. -/
theorem base16_matches_layout {ps : List (List Char × List Char)} (hl : Laid ps) :
    base16_matches none (layoutText hexLiteral ps) = ps.map (hexLiteral ∘ Prod.fst) := by
  induction ps with
  | nil => rfl
  | cons p ps ih =>
    obtain ⟨h, u⟩ := p
    obtain ⟨hne, hh, hx, -, hend, hl'⟩ := hl
    obtain ⟨c, h, rfl⟩ := List.exists_cons_of_ne_nil hne
    have hrest : ∀ c ∈ (layoutText hexLiteral ps).head?, c ≠ 'x' :=
      layoutText_head (fun h c hc => (zero_head_ne _ c hc).1) fun q hq => (hl'.mem hq).2.2.1
    simp only [layoutText, hexLiteral, List.cons_append, List.append_assoc]
    rw [base16_matches.eq_3, if_pos (hh c (List.mem_cons_self _ _)),
      base16_matches_run _ fun d hd => hh d (List.mem_cons_of_mem _ hd)]
    cases u with
    | nil =>
      subst hend
      simp [base16_matches, layoutText, hexLiteral]
    | cons d u =>
      rw [List.cons_append, base16_matches, if_neg (by simp [hend]),
        base16_matches_gap (fun h => hx (List.mem_cons_of_mem _ h)) hrest, ih hl']
      simp [hexLiteral]

theorem expandHex_gap {a rest : List Char} (ha : 'x' ∉ a) (hrest : ∀ c ∈ rest.head?, c ≠ 'x') :
    expandHex none (a ++ rest) = a ++ expandHex none rest := by
  induction a with
  | nil => rfl
  | cons c a ih =>
    have ha' : 'x' ∉ a := fun h => ha (List.mem_cons_of_mem _ h)
    rw [List.cons_append, expandHex.eq_4 _ _ fun d s _ hs =>
      head_append_ne ha' hrest 'x' (by rw [hs]; rfl) rfl, ih ha', List.cons_append]

theorem expandHex_run (run : List Char) {h : List Char} (hh : ∀ c ∈ h, isHexDigit c)
    (v : List Char) : expandHex (some run) (h ++ v) = expandHex (some (h.reverse ++ run)) v := by
  induction h generalizing run with
  | nil => rfl
  | cons c h ih =>
    rw [List.cons_append, expandHex, if_pos (hh c (List.mem_cons_self _ _)),
      ih _ fun d hd => hh d (List.mem_cons_of_mem _ hd)]
    simp

/-- The one-pass expansion of a laid-out text renders each literal in decimal and keeps the
gaps. -/
theorem expandHex_layout {ps : List (List Char × List Char)} (hl : Laid ps) :
    expandHex none (layoutText hexLiteral ps) = layoutText hexDecimal ps := by
  induction ps with
  | nil => rfl
  | cons p ps ih =>
    obtain ⟨h, u⟩ := p
    obtain ⟨hne, hh, hx, -, hend, hl'⟩ := hl
    obtain ⟨c, h, rfl⟩ := List.exists_cons_of_ne_nil hne
    have hrest : ∀ c ∈ (layoutText hexLiteral ps).head?, c ≠ 'x' :=
      layoutText_head (fun h c hc => (zero_head_ne _ c hc).1) fun q hq => (hl'.mem hq).2.2.1
    simp only [layoutText, hexLiteral, List.cons_append, List.append_assoc]
    rw [expandHex.eq_3, if_pos (hh c (List.mem_cons_self _ _)),
      expandHex_run _ fun d hd => hh d (List.mem_cons_of_mem _ hd)]
    cases u with
    | nil =>
      subst hend
      simp [expandHex, layoutText, hexDecimal]
    | cons d u =>
      rw [List.cons_append, expandHex, if_neg (by simp [hend]),
        expandHex_gap (fun h => hx (List.mem_cons_of_mem _ h)) hrest, ih hl']
      simp [hexDecimal]

/-! ### The expansion -/

theorem strtoull_hexLiteral {h : List Char} (hh : h ≠ [] ∧ ∀ c ∈ h, isHexDigit c)
    (hv : scanDigits 16 h 0 < 2 ^ 64) : strtoull (hexLiteral h) 16 = scanDigits 16 h 0 := by
  obtain ⟨c, cs, rfl⟩ := List.exists_cons_of_ne_nil hh.1
  have hc : (digitValue 16 c).isSome := hh.2 c (List.mem_cons_self _ _)
  simp [strtoull, scanInteger, hexLiteral, List.dropWhile, isspace, skipHexPrefix, hc]
  omega

/-- `process_base16`'s loop over the matches, from a text where the literals in `done` are
replaced: each match replaces its own literal. -/
theorem process_base16_fold {first : List Char} (hfirst : 'x' ∉ first)
    {ps : List (List Char × List Char)} (hl : Laid ps)
    (hfree : ∀ p ∈ ps, ∀ q ∈ ps, p.1 <+: q.1 → p.1 = q.1)
    (hval : ∀ p ∈ ps, scanDigits 16 p.1 0 < 2 ^ 64)
    (tags : List (List Char × List Char)) (htags : ∀ p ∈ tags, p ∈ ps) (done : List (List Char)) :
    ((tags.map (hexLiteral ∘ Prod.fst)).map fun tag => (tag, strtoull tag 16)).foldl
        (fun input (tag, rep) => replace_all input tag (toString rep).data)
        (first ++ layoutText (stage done) ps) =
      first ++ layoutText (stage (done ++ tags.map (hexLiteral ∘ Prod.fst))) ps := by
  induction tags generalizing done with
  | nil => simp
  | cons p tags ih =>
    have hp := htags p (List.mem_cons_self _ _)
    obtain ⟨hne, hh, -, -⟩ := hl.mem hp
    have hrest : ∀ c ∈ (layoutText (stage done) ps).head?, c ≠ 'x' :=
      layoutText_head (fun h c hc => (stage_head done h c hc).1) fun q hq => (hl.mem hq).2.2.1
    have hstep : replace_all (first ++ layoutText (stage done) ps) (hexLiteral p.1)
        (toString (strtoull (hexLiteral p.1) 16)).data =
        first ++ layoutText (stage (done ++ [hexLiteral p.1])) ps := by
      rw [strtoull_hexLiteral ⟨hne, hh⟩ (hval p hp),
        show (toString (scanDigits 16 p.1 0)).data = hexDecimal p.1 from rfl,
        @replace_all_eq_replaceOccurrences _ (hexLiteral p.1) _ (List.cons_ne_nil _ _), hexLiteral,
        replaceOccurrences_gap hfirst hrest, ← hexLiteral,
        replaceOccurrences_stage ⟨hne, hh⟩ done hl fun q hq => hfree p hp q hq]
    simp only [List.map_cons, List.foldl_cons, Function.comp]
    rw [hstep, ih (fun q hq => htags q (List.mem_cons_of_mem _ hq)), List.append_assoc,
      List.singleton_append]

/-- Folding `0X` to `0x` in a laid-out text writes every literal `0x`. -/
theorem HexLayout.fold (L : HexLayout) :
    replaceOccurrences ['0', 'X'] ['0', 'x'] L.text =
      L.first ++ layoutText hexLiteral L.literals := by
  rw [HexLayout.text, replaceOccurrences_gap L.first_plain.2
    (layoutText_head (fun _ c hc => (zero_head_ne _ c hc).2) fun _ hq => (L.laid.mem hq).2.2.2),
    replaceOccurrences_fold L.marker_x L.laid]

theorem HexLayout.head_ne_x (L : HexLayout) :
    ∀ c ∈ (layoutText hexLiteral L.literals).head?, c ≠ 'x' :=
  layoutText_head (fun _ c hc => (zero_head_ne _ c hc).1) fun _ hq => (L.laid.mem hq).2.2.1

/-- The one-pass expansion of a laid-out text. -/
theorem expandHexLiterals_layout (L : HexLayout) :
    expandHexLiterals L.text = L.first ++ layoutText hexDecimal L.literals := by
  rw [expandHexLiterals, L.fold, expandHex_gap L.first_plain.1 L.head_ne_x, expandHex_layout L.laid]

/-- What `process_base16` does to a laid-out text whose literals begin no other one. -/
theorem process_base16_layout (L : HexLayout) (hfree : L.PrefixFree)
    (hval : ∀ p ∈ L.literals, scanDigits 16 p.1 0 < 2 ^ 64) :
    process_base16 L.text = L.first ++ layoutText hexDecimal L.literals := by
  have hstart : layoutText hexLiteral L.literals = layoutText (stage []) L.literals :=
    layoutText_congr fun _ _ => (stage_of_not_mem (List.not_mem_nil _)).symm
  have hend : layoutText (stage ([] ++ L.literals.map (hexLiteral ∘ Prod.fst))) L.literals =
      layoutText hexDecimal L.literals :=
    layoutText_congr fun p hp => stage_of_mem (by
      rw [List.nil_append]
      exact List.mem_map.mpr ⟨p, hp, rfl⟩)
  simp only [process_base16]
  rw [replace_all_eq_replaceOccurrences _ _ (List.cons_ne_nil _ _), L.fold,
    base16_matches_gap L.first_plain.1 L.head_ne_x, base16_matches_layout L.laid, hstart,
    process_base16_fold L.first_plain.1 L.laid hfree hval _ (fun _ hp => hp), hend]

/-- When no hex literal of a text is the beginning of a different one and every value is below
`2 ^ 64`, `process_base16` replaces each literal, where it was matched, by the decimal rendering
of its value. -/
theorem process_base16_expands (L : HexLayout) (hfree : L.PrefixFree)
    (hval : ∀ p ∈ L.literals, scanDigits 16 p.1 0 < 2 ^ 64) :
    process_base16 L.text = expandHexLiterals L.text :=
  (process_base16_layout L hfree hval).trans (expandHexLiterals_layout L).symm

/-- `(0XFF)-0X12`, as `capitalization` leaves the text of `$((0xff)-0x12)`. -/
theorem process_base16_expands_sample :
    process_base16 "(0XFF)-0X12".data = expandHexLiterals "(0XFF)-0X12".data ∧
      process_base16 "(0XFF)-0X12".data = "(255)-18".data :=
  ⟨process_base16_expands ⟨"(".data, 'X', [("FF".data, ")-".data), ("12".data, [])], .inr rfl,
    by decide, by simp only [Laid]; decide⟩ (by unfold HexLayout.PrefixFree; decide) (by decide),
    rfl⟩

end Sysdarft
