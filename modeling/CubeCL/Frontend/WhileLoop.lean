import CubeCL.Frontend.Branch
import CubeCL.IR.Semantics

/-!
# `CubeCL.Frontend.WhileLoop`: what `while_loop_expand` registers

`while_loop_expand(cond_fn, block)` expands the condition in a child scope, then
`if_expand(None, cond, break_expand)`, then the body, and registers that scope as a
`Loop`. So each turn of the loop computes the condition, leaves the loop when the
condition is **true**, and otherwise runs the body. The host loop `while cond { body }`
runs the body when the condition is true: the registered loop is `while !cond { body }`.

* `whileLoopExpand_scope`: the shape of the registered loop scope.
* `loopFrom_guarded_iff`: a loop whose scope is the condition's operations, an
  `If { cond, [Break] }` and a body, runs exactly like the host loop over the negated
  condition (`WhileExec` with `!cond`).
* `while_loop_expand_runs_negated`: the two together, for every condition and every
  appending body emitter.
* `while_true_loop_skips_body`: `while true { sync; break }` expands to a loop that ends at
  once without running the body.
-/

set_option autoImplicit false

namespace CubeCL.Frontend

open CubeCL.IR

section Turn

variable {σ : Type} {M : Machine σ} {condOps bodyOps : List Operation} {cond : Variable}
  {guard scope : Scope}

/-- One turn of a loop scope made of the condition's operations, an `If` that breaks, and a
body: the condition's operations fall through, and then the turn breaks in place if the
condition is true or runs the body if it is false; or the condition's operations break or
return themselves. -/
theorem turn_iff (hguard : guard.operations = [.branch .break])
    (hscope : scope.operations = condOps ++ .branch (.if cond guard) :: bodyOps)
    {s t : σ} {o : Outcome} :
    Exec M (.seq scope.operations) s t o ↔
      (∃ s₁, Exec M (.seq condOps) s s₁ .normal ∧
        (M.truth cond s₁ = true ∧ t = s₁ ∧ o = .broke ∨
          M.truth cond s₁ = false ∧ Exec M (.seq bodyOps) s₁ t o)) ∨
      (Exec M (.seq condOps) s t o ∧ o ≠ .normal) := by
  rw [hscope, Exec.seq_append_iff]
  refine or_congr (exists_congr fun s₁ => and_congr_right fun _ => ?_) Iff.rfl
  rw [Exec.seq_cons_iff]
  simp only [Exec.if_break_iff hguard]
  cases htruth : M.truth cond s₁
  · simp only [Bool.false_eq_true, if_false, false_and, false_or, true_and]
    constructor
    · rintro (⟨t', ⟨rfl, -⟩, h⟩ | ⟨⟨-, rfl⟩, ho⟩)
      exacts [h, absurd rfl ho]
    · exact fun h => .inl ⟨s₁, ⟨rfl, trivial⟩, h⟩
  · simp only [if_true, Bool.true_eq_false, false_and, or_false, true_and]
    constructor
    · rintro (⟨t', ⟨-, ho⟩, -⟩ | ⟨⟨rfl, rfl⟩, -⟩)
      exacts [Outcome.noConfusion ho, ⟨rfl, rfl⟩]
    · rintro ⟨rfl, rfl⟩
      exact .inr ⟨⟨rfl, rfl⟩, Outcome.noConfusion⟩

/-- A loop over such a scope runs as the host loop over the negated condition. -/
theorem loopFrom_guarded_iff (hguard : guard.operations = [.branch .break])
    (hscope : scope.operations = condOps ++ .branch (.if cond guard) :: bodyOps)
    {s s' : σ} {o : Outcome} :
    Exec M (.loopFrom scope) s s' o ↔
      WhileExec M condOps (fun t => !M.truth cond t) bodyOps s s' o := by
  constructor
  · intro h
    generalize hc : Code.loopFrom scope = c at h
    induction h with
    | loopNext hturn _ _ ih =>
        cases hc
        rcases (turn_iff hguard hscope).mp hturn with
          ⟨s₁, hcond, ⟨-, -, ho⟩ | ⟨hfalse, hbody⟩⟩ | ⟨-, ho⟩
        · cases ho
        · exact .next hcond (by simp [hfalse]) hbody (ih rfl)
        · exact absurd rfl ho
    | loopBroke hturn =>
        cases hc
        rcases (turn_iff hguard hscope).mp hturn with
          ⟨s₁, hcond, ⟨htrue, rfl, -⟩ | ⟨hfalse, hbody⟩⟩ | ⟨hcond, -⟩
        · exact .exit hcond (by simp [htrue])
        · exact .bodyBroke hcond (by simp [hfalse]) hbody
        · exact .condBroke hcond
    | loopReturned hturn =>
        cases hc
        rcases (turn_iff hguard hscope).mp hturn with
          ⟨s₁, hcond, ⟨-, -, ho⟩ | ⟨hfalse, hbody⟩⟩ | ⟨hcond, -⟩
        · cases ho
        · exact .bodyReturned hcond (by simp [hfalse]) hbody
        · exact .condReturned hcond
    | _ => cases hc
  · intro h
    induction h with
    | exit hcond htest =>
        refine .loopBroke ((turn_iff hguard hscope).mpr (.inl ⟨_, hcond, .inl ⟨?_, rfl, rfl⟩⟩))
        simpa using htest
    | next hcond htest hbody _ ih =>
        refine .loopNext ((turn_iff hguard hscope).mpr (.inl ⟨_, hcond, .inr ⟨?_, hbody⟩⟩)) ih
        simpa using htest
    | bodyBroke hcond htest hbody =>
        refine .loopBroke ((turn_iff hguard hscope).mpr (.inl ⟨_, hcond, .inr ⟨?_, hbody⟩⟩))
        simpa using htest
    | bodyReturned hcond htest hbody =>
        refine .loopReturned ((turn_iff hguard hscope).mpr (.inl ⟨_, hcond, .inr ⟨?_, hbody⟩⟩))
        simpa using htest
    | condBroke hcond => exact .loopBroke ((turn_iff hguard hscope).mpr (.inr ⟨hcond, by simp⟩))
    | condReturned hcond =>
        exact .loopReturned ((turn_iff hguard hscope).mpr (.inr ⟨hcond, by simp⟩))

end Turn

/-- The loop `while_loop_expand` registers: the child scope holds the condition's
operations, then `If { cond, [Break] }`, then what the body appends. -/
theorem whileLoopExpand_scope (context : Scope) (condFn : Scope → Variable × Scope)
    (block : Scope → Scope) (hblock : Appends block) :
    ∃ loopScope guard bodyOps,
      whileLoopExpand context condFn block = context.register (.branch (.loop loopScope)) ∧
      guard.operations = [.branch .break] ∧
      loopScope.operations = (condFn context.child).2.operations ++
        .branch (.if (condFn context.child).1 guard) :: bodyOps := by
  obtain ⟨bodyOps, hbody⟩ :=
    hblock (ifExpand (condFn context.child).2 none (condFn context.child).1 breakExpand)
  refine ⟨_, breakExpand (condFn context.child).2.child, bodyOps, rfl, rfl, ?_⟩
  rw [← hbody]
  simp [ifExpand, Scope.register]

/-- `while_loop_expand(cond_fn, block)` registers a loop that runs as the host loop
`while !cond { body }`: each turn computes the condition, leaves when it is true, and runs
the body when it is false. This holds for every condition emitter, every body emitter that
appends, and every machine. -/
theorem while_loop_expand_runs_negated (context : Scope) (condFn : Scope → Variable × Scope)
    (block : Scope → Scope) (hblock : Appends block) :
    ∃ loopScope bodyOps,
      whileLoopExpand context condFn block = context.register (.branch (.loop loopScope)) ∧
      (∃ guard, loopScope.operations = (condFn context.child).2.operations ++
        .branch (.if (condFn context.child).1 guard) :: bodyOps) ∧
      ∀ {σ : Type} (M : Machine σ) (s s' : σ) (o : Outcome),
        Exec M (.one (.branch (.loop loopScope))) s s' o ↔
          WhileExec M (condFn context.child).2.operations
            (fun t => !M.truth (condFn context.child).1 t) bodyOps s s' o := by
  obtain ⟨loopScope, guard, bodyOps, hexpand, hguard, hscope⟩ :=
    whileLoopExpand_scope context condFn block hblock
  refine ⟨loopScope, bodyOps, hexpand, ⟨guard, hscope⟩, fun M s s' o => ?_⟩
  rw [Exec.loop_iff, loopFrom_guarded_iff hguard hscope]

/-- A body that synchronizes, under the literal condition `true`. -/
theorem while_loop_expand_sync_body :
    Appends (fun s => s.register (.synchronization .syncUnits)) ∧
    ∃ loopScope bodyOps,
      whileLoopExpand Scope.root (fun s => (.constantScalar (.bool true), s))
          (fun s => s.register (.synchronization .syncUnits)) =
        Scope.root.register (.branch (.loop loopScope)) ∧
      (∃ guard, loopScope.operations =
        [] ++ .branch (.if (.constantScalar (.bool true)) guard) :: bodyOps) ∧
      ∀ {σ : Type} (M : Machine σ) (s s' : σ) (o : Outcome),
        Exec M (.one (.branch (.loop loopScope))) s s' o ↔
          WhileExec M [] (fun t => !M.truth (.constantScalar (.bool true)) t) bodyOps s s' o :=
  have hblock : Appends (fun s => s.register (.synchronization .syncUnits)) :=
    fun _ => ⟨[_], rfl⟩
  ⟨hblock, while_loop_expand_runs_negated Scope.root _ _ hblock⟩

/-- A machine that counts the plain operations it runs, and reads the literal `true` as
`1` and every other variable as `0`. -/
def countingMachine : Machine Nat where
  exec _ n := n + 1
  value v _ := if v = .constantScalar (.bool true) then 1 else 0
  assign _ _ n := n

/-- `while true { sync; break }`. The host loop runs the body once and leaves through its
`Break`, after one synchronization. The loop `while_loop_expand` registers leaves at its
first test, because the condition is true, and never runs the body. -/
theorem while_true_loop_skips_body :
    ∃ loopScope,
      whileLoopExpand Scope.root (fun s => (.constantScalar (.bool true), s))
          (fun s => (s.register (.synchronization .syncUnits)).register (.branch .break)) =
        Scope.root.register (.branch (.loop loopScope)) ∧
      WhileExec countingMachine [] (countingMachine.truth (.constantScalar (.bool true)))
        [.synchronization .syncUnits, .branch .break] 0 1 .normal ∧
      Exec countingMachine (.one (.branch (.loop loopScope))) 0 0 .normal ∧
      ¬ Exec countingMachine (.one (.branch (.loop loopScope))) 0 1 .normal := by
  have hloop : Exec countingMachine (.one (.branch (.loop
      (((Scope.root.child.register (.branch (.if (.constantScalar (.bool true))
        (Scope.root.child.child.register (.branch .break))))).register
        (.synchronization .syncUnits)).register (.branch .break))))) 0 0 .normal :=
    .loop (.loopBroke (.stop (.ifTrue rfl (.stop (.break 0) nofun)) nofun))
  refine ⟨_, rfl, .bodyBroke (.nil 0) rfl (.next (.plain rfl) (.stop (.break 1) nofun)), hloop,
    fun h => ?_⟩
  exact absurd (Exec.deterministic h hloop).1 (by decide)

end CubeCL.Frontend
