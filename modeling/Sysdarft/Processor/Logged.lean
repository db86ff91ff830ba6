import Sysdarft.Processor.Executor

/-!
# Processor — the executor with its debug log

`nop` and `add` print a line each through `debug::log` (`instruction_executor.cpp`, lines 49
and 58), which the executor of `Executor` leaves out.  `Logged` runs the executor with that
output: its state is the processor's and the lines written to `std::cout`, and a line once
written stays when an exception leaves.  `debug_log` is `debug::log` with `verbose` off, where it
prints its arguments and nothing else; the header a verbose log adds is `logCaller`'s.

`Logged.operation` is `processor::operation` with the log, written as the source has it, and
`Logged.operation_erases` says that erasing the output gives `operation` back, state and
exceptions alike: printing changes nothing else, so every result about `operation` is one about
the code with its log.
-/

namespace Sysdarft

/-- The executor with what `debug::log` has printed, one entry a call. -/
abbrev Logged := EStateM IllegalInstruction (Processor × List String)

/-- An executor operation run with the log; it prints nothing. -/
def Exec.quiet {α : Type} (x : Exec α) : Logged α := fun c =>
  match x c.1 with
  | .ok a s => .ok a (s, c.2)
  | .error e s => .error e (s, c.2)

/-- `debug::log(args...)` with `verbose` off: `_log` prints each argument, a `std::string` or a
string literal, as it is. -/
def debug_log (args : List String) : Logged Unit := fun c =>
  .ok () (c.1, c.2 ++ [String.join args])

variable (ci : ControlRegisterIndex)

/-- The statement `operand1 = operand1.get<uint64_t>() + operand2.get<uint64_t>();` of `add`. -/
def add_assign (operand1 operand2 : Target) : Exec Unit := do
  let value1 ← operand1.get_target_content_in_u64bit_t ci
  let value2 ← operand2.get_target_content_in_u64bit_t ci
  operand1.set_target_content_in_u64bit_t ci (value1 + value2)

theorem add_eq : add ci = pop 8 >>= fun _ => pop_target ci >>= fun operand1 =>
    pop_target ci >>= fun operand2 => add_assign ci operand1 operand2 :=
  rfl

namespace Logged

/-- `__InstructionExecutorType__::nop`. -/
def nop : Logged Unit := debug_log ["[PROCESSOR]:\tNOP\n"]

/-- `__InstructionExecutorType__::add`: the line is printed once both operands are decoded and
before either is read. -/
def add : Logged Unit := do
  let _width ← (pop 8).quiet
  let operand1 ← (pop_target ci).quiet
  let operand2 ← (pop_target ci).quiet
  debug_log ["[PROCESSOR]:\tADD ", operand1.literal, ", ", operand2.literal, "\n"]
  (add_assign ci operand1 operand2).quiet

/-- `processor::operation`. -/
def operation : Logged Unit := do
  let opcode ← (pop 64).quiet
  if opcode = 0x00 then nop
  else if opcode = 0x01 then add ci
  else (soft_interruption_ready INT_ILLEGAL_INSTRUCTION).quiet

/-! ### Erasing the output -/

/-- A result of the logged executor with its output erased. -/
def erase {α : Type} : EStateM.Result IllegalInstruction (Processor × List String) α →
    EStateM.Result IllegalInstruction Processor α
  | .ok a c => .ok a c.1
  | .error e c => .error e c.1

/-- `y` is `x` with printing: from every state and output, `y` ends as `x` does. -/
def Erases {α : Type} (y : Logged α) (x : Exec α) : Prop :=
  ∀ s out, erase (y.run (s, out)) = x.run s

variable {α β : Type}

theorem erase_eq_ok {r : EStateM.Result IllegalInstruction (Processor × List String) α} {a : α}
    {s : Processor} : erase r = .ok a s ↔ ∃ out, r = .ok a (s, out) := by
  cases r with
  | ok b c => simp [erase, Prod.ext_iff, eq_comm]
  | error e c => simp [erase]

theorem quiet_erases (x : Exec α) : x.quiet.Erases x := fun s _ => by
  simp only [run_eq_apply, Exec.quiet]
  cases x s <;> rfl

theorem Erases.bind {y : Logged α} {x : Exec α} {g : α → Logged β} {f : α → Exec β}
    (hy : y.Erases x) (hg : ∀ a, (g a).Erases (f a)) : (y >>= g).Erases (x >>= f) := by
  intro s out
  have h := hy s out
  simp only [run_eq_apply] at h
  show erase (EStateM.bind y g (s, out)) = EStateM.bind x f s
  unfold EStateM.bind
  cases hr : y (s, out) <;> rw [hr] at h <;> rw [← h]
  · exact hg _ _ _
  · rfl

theorem Erases.log {y : Logged α} {x : Exec α} (args : List String) (h : y.Erases x) :
    (debug_log args >>= fun _ => y).Erases x := fun s _ => h s _

theorem add_erases : (add ci).Erases (Sysdarft.add ci) := by
  rw [add_eq]
  exact (quiet_erases _).bind fun _ => (quiet_erases _).bind fun _ => (quiet_erases _).bind
    fun _ => .log _ (quiet_erases _)

/-- Printing changes nothing else: the logged `operation`, from any output, ends in the state
and with the exception `operation` ends in. -/
theorem operation_erases : (operation ci).Erases (Sysdarft.operation ci) :=
  (quiet_erases _).bind fun _ => by
    split_ifs
    · exact fun _ _ => rfl
    · exact add_erases ci
    · exact quiet_erases _

end Logged

/-! ### Runs of quiet operations -/

section Quiet

variable {α β : Type} {x : Exec α} {s s' : Processor} {out : List String}

theorem Exec.quiet_eq_ok {a : α} {c : Processor × List String} :
    x.quiet.run (s, out) = .ok a c ↔ x.run s = .ok a c.1 ∧ c.2 = out := by
  simp only [run_eq_apply, Exec.quiet]
  cases x s <;> simp [Prod.ext_iff, eq_comm, and_assoc]

theorem Exec.quiet_eq_error {e : IllegalInstruction} {c : Processor × List String} :
    x.quiet.run (s, out) = .error e c ↔ x.run s = .error e c.1 ∧ c.2 = out := by
  simp only [run_eq_apply, Exec.quiet]
  cases x s <;> simp [Prod.ext_iff, eq_comm, and_assoc]

theorem Exec.quiet_bind_of_ok {a : α} {f : α → Logged β} (h : x.run s = .ok a s') :
    (x.quiet >>= f).run (s, out) = (f a).run (s', out) :=
  run_bind_of_ok (Exec.quiet_eq_ok.mpr ⟨h, rfl⟩)

theorem Exec.quiet_bind_eq_ok {f : α → Logged β} {b : β} {c : Processor × List String}
    (h : (x.quiet >>= f).run (s, out) = .ok b c) :
    ∃ a s', x.run s = .ok a s' ∧ (f a).run (s', out) = .ok b c := by
  obtain ⟨a, c', hx, hf⟩ := run_bind_eq_ok h
  obtain ⟨hx, hout⟩ := Exec.quiet_eq_ok.mp hx
  exact ⟨a, c'.1, hx, hout ▸ hf⟩

theorem Exec.quiet_bind_eq_error {f : α → Logged β} {e : IllegalInstruction}
    {c : Processor × List String} (h : (x.quiet >>= f).run (s, out) = .error e c) :
    (x.run s = .error e c.1 ∧ c.2 = out) ∨
      ∃ a s', x.run s = .ok a s' ∧ (f a).run (s', out) = .error e c := by
  simp only [run_eq_apply, bind, EStateM.bind, Exec.quiet] at h ⊢
  cases hx : x s with
  | ok a s' => exact .inr ⟨a, s', rfl, by rwa [hx] at h⟩
  | error e' s' =>
    rw [hx] at h
    cases h
    exact .inl ⟨rfl, rfl⟩

theorem debug_log_bind_run {f : Unit → Logged β} (args : List String)
    (c : Processor × List String) :
    (debug_log args >>= f).run c = (f ()).run (c.1, c.2 ++ [String.join args]) :=
  rfl

end Quiet

end Sysdarft
