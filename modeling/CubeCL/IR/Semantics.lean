import CubeCL.IR.Operation

/-!
# `CubeCL.IR.Semantics`: what a scope means

The structured semantics of the IR, the one the WGSL backend renders (`compile_branch`):
a scope runs its operations in order; `If` runs its scope exactly when its condition is
true and `IfElse` picks one of its two; `Loop` runs its scope again and again until a
`Break` leaves it; `RangeLoop` is the WGSL loop
`for (var i: u32 = start; i < end; i += step)`, with `u32` wrapping arithmetic; `Break`
ends the innermost loop and `Return` the kernel.

The semantics is a big-step relation `Exec` over a `Machine`, which gives the effect of
every operation that is not a branch and the value of every variable. A loop that never
ends has no derivation. `Exec` is one inductive over a small index type `Code` (a list of
operations, one operation, the iterations of a loop), so that one `induction` covers a
run, however its loops nest.

The host language's `while cond { body }` is `WhileExec`: the condition's operations run,
then the body runs if the condition holds, and the loop ends the first time it does not.

* `Exec.deterministic`: a scope has at most one outcome from a state.
* `Exec.seq_append_iff`: running a concatenation is running its two parts.
* `Exec.if_iff`, `Exec.ifElse_iff`: a branch runs the scope its condition picks.
* `Machine.Assigns`: what `Assign` does, for the results that need to know it.
* `Exec.if_break_iff`: an `If` whose scope is one `Break` breaks exactly when its condition
  is true.
-/

set_option autoImplicit false

namespace CubeCL.IR

/-- How running operations ends: falling through, on a `Break`, or on a `Return`. -/
inductive Outcome where
  | normal
  | broke
  | returned
  deriving DecidableEq, Repr

/-- What the semantics needs of the device: the effect of an operation that is not a
branch, the value of a variable (a boolean as `0` or `1`), and the write of a range loop's
index. -/
structure Machine (σ : Type) where
  exec : Operation → σ → σ
  value : Variable → σ → Nat
  assign : Variable → Nat → σ → σ

namespace Machine

variable {σ : Type}

/-- A condition holds when its value is not zero. -/
def truth (M : Machine σ) (cond : Variable) (s : σ) : Bool := M.value cond s != 0

/-- The increment of a range loop: `step`, or `1` for the rendered `i++`. -/
def increment (M : Machine σ) (step : Option Variable) (s : σ) : Nat :=
  (step.map fun step => M.value step s).getD 1

end Machine

/-- `Branch` operations change control; every other operation is one machine step. -/
def Operation.isBranch : Operation → Bool
  | .branch _ => true
  | _ => false

/-- What `Exec` runs: a list of operations, one operation, the iterations of a `Loop`
from the start of one, or the iterations of a `RangeLoop` from its test. -/
inductive Code where
  | seq (ops : List Operation)
  | one (op : Operation)
  | loopFrom (scope : Scope)
  | rangeFrom (i «end» : Variable) (step : Option Variable) (scope : Scope)

/-- `Exec M c s s' o`: running `c` from `s` ends in `s'` with outcome `o`. -/
inductive Exec {σ : Type} (M : Machine σ) : Code → σ → σ → Outcome → Prop where
  | nil (s : σ) : Exec M (.seq []) s s .normal
  | next {op : Operation} {ops : List Operation} {s s₁ s₂ : σ} {o : Outcome} :
      Exec M (.one op) s s₁ .normal → Exec M (.seq ops) s₁ s₂ o →
      Exec M (.seq (op :: ops)) s s₂ o
  | stop {op : Operation} {ops : List Operation} {s s₁ : σ} {o : Outcome} :
      Exec M (.one op) s s₁ o → o ≠ .normal → Exec M (.seq (op :: ops)) s s₁ o
  | plain {op : Operation} {s : σ} : op.isBranch = false → Exec M (.one op) s (M.exec op s) .normal
  | ifTrue {cond : Variable} {scope : Scope} {s s' : σ} {o : Outcome} :
      M.truth cond s = true → Exec M (.seq scope.operations) s s' o →
      Exec M (.one (.branch (.if cond scope))) s s' o
  | ifFalse {cond : Variable} {scope : Scope} {s : σ} :
      M.truth cond s = false → Exec M (.one (.branch (.if cond scope))) s s .normal
  | ifElseTrue {cond : Variable} {scopeIf scopeElse : Scope} {s s' : σ} {o : Outcome} :
      M.truth cond s = true → Exec M (.seq scopeIf.operations) s s' o →
      Exec M (.one (.branch (.ifElse cond scopeIf scopeElse))) s s' o
  | ifElseFalse {cond : Variable} {scopeIf scopeElse : Scope} {s s' : σ} {o : Outcome} :
      M.truth cond s = false → Exec M (.seq scopeElse.operations) s s' o →
      Exec M (.one (.branch (.ifElse cond scopeIf scopeElse))) s s' o
  | «loop» {scope : Scope} {s s' : σ} {o : Outcome} :
      Exec M (.loopFrom scope) s s' o → Exec M (.one (.branch (.loop scope))) s s' o
  | rangeLoop {i start «end» : Variable} {step : Option Variable} {scope : Scope} {s s' : σ}
      {o : Outcome} :
      Exec M (.rangeFrom i «end» step scope) (M.assign i (M.value start s) s) s' o →
      Exec M (.one (.branch (.rangeLoop i start «end» step scope))) s s' o
  | «break» (s : σ) : Exec M (.one (.branch .break)) s s .broke
  | «return» (s : σ) : Exec M (.one (.branch .return)) s s .returned
  | loopNext {scope : Scope} {s s₁ s₂ : σ} {o : Outcome} :
      Exec M (.seq scope.operations) s s₁ .normal → Exec M (.loopFrom scope) s₁ s₂ o →
      Exec M (.loopFrom scope) s s₂ o
  | loopBroke {scope : Scope} {s s₁ : σ} :
      Exec M (.seq scope.operations) s s₁ .broke → Exec M (.loopFrom scope) s s₁ .normal
  | loopReturned {scope : Scope} {s s₁ : σ} :
      Exec M (.seq scope.operations) s s₁ .returned → Exec M (.loopFrom scope) s s₁ .returned
  | rangeExit {i «end» : Variable} {step : Option Variable} {scope : Scope} {s : σ} :
      ¬ M.value i s < M.value «end» s → Exec M (.rangeFrom i «end» step scope) s s .normal
  | rangeNext {i «end» : Variable} {step : Option Variable} {scope : Scope} {s s₁ s₂ : σ}
      {o : Outcome} :
      M.value i s < M.value «end» s → Exec M (.seq scope.operations) s s₁ .normal →
      Exec M (.rangeFrom i «end» step scope)
        (M.assign i ((M.value i s₁ + M.increment step s₁) % 2 ^ 32) s₁) s₂ o →
      Exec M (.rangeFrom i «end» step scope) s s₂ o
  | rangeBroke {i «end» : Variable} {step : Option Variable} {scope : Scope} {s s₁ : σ} :
      M.value i s < M.value «end» s → Exec M (.seq scope.operations) s s₁ .broke →
      Exec M (.rangeFrom i «end» step scope) s s₁ .normal
  | rangeReturned {i «end» : Variable} {step : Option Variable} {scope : Scope} {s s₁ : σ} :
      M.value i s < M.value «end» s → Exec M (.seq scope.operations) s s₁ .returned →
      Exec M (.rangeFrom i «end» step scope) s s₁ .returned

/-- The host loop `while cond { body }`: each turn runs the condition's operations
`condOps`, then reads the condition with `test`; the body `bodyOps` runs when it holds,
and the loop ends the first time it does not. A `Break` ends the loop and a `Return` the
kernel, in the body or in the condition. -/
inductive WhileExec {σ : Type} (M : Machine σ) (condOps : List Operation) (test : σ → Bool)
    (bodyOps : List Operation) : σ → σ → Outcome → Prop where
  | exit {s s₁ : σ} :
      Exec M (.seq condOps) s s₁ .normal → test s₁ = false → WhileExec M condOps test bodyOps s s₁ .normal
  | next {s s₁ s₂ s₃ : σ} {o : Outcome} :
      Exec M (.seq condOps) s s₁ .normal → test s₁ = true →
      Exec M (.seq bodyOps) s₁ s₂ .normal → WhileExec M condOps test bodyOps s₂ s₃ o →
      WhileExec M condOps test bodyOps s s₃ o
  | bodyBroke {s s₁ s₂ : σ} :
      Exec M (.seq condOps) s s₁ .normal → test s₁ = true →
      Exec M (.seq bodyOps) s₁ s₂ .broke → WhileExec M condOps test bodyOps s s₂ .normal
  | bodyReturned {s s₁ s₂ : σ} :
      Exec M (.seq condOps) s s₁ .normal → test s₁ = true →
      Exec M (.seq bodyOps) s₁ s₂ .returned → WhileExec M condOps test bodyOps s s₂ .returned
  | condBroke {s s₁ : σ} :
      Exec M (.seq condOps) s s₁ .broke → WhileExec M condOps test bodyOps s s₁ .normal
  | condReturned {s s₁ : σ} :
      Exec M (.seq condOps) s s₁ .returned → WhileExec M condOps test bodyOps s s₁ .returned

namespace Exec

variable {σ : Type} {M : Machine σ}

/-- The empty sequence ends normally where it starts. -/
theorem seq_nil_iff {s s' : σ} {o : Outcome} :
    Exec M (.seq []) s s' o ↔ s' = s ∧ o = .normal := by
  constructor
  · rintro ⟨⟩
    exact ⟨rfl, rfl⟩
  · rintro ⟨rfl, rfl⟩
    exact .nil _

/-- A sequence runs its first operation, then the rest if the first ended normally. -/
theorem seq_cons_iff {op : Operation} {ops : List Operation} {s s' : σ} {o : Outcome} :
    Exec M (.seq (op :: ops)) s s' o ↔
      (∃ t, Exec M (.one op) s t .normal ∧ Exec M (.seq ops) t s' o) ∨
      (Exec M (.one op) s s' o ∧ o ≠ .normal) := by
  constructor
  · rintro (_ | ⟨h₁, h₂⟩ | ⟨h, ho⟩)
    · exact .inl ⟨_, h₁, h₂⟩
    · exact .inr ⟨h, ho⟩
  · rintro (⟨t, h₁, h₂⟩ | ⟨h, ho⟩)
    · exact .next h₁ h₂
    · exact .stop h ho

/-- Running a concatenation: the first part falls through and the second runs, or the
first part breaks or returns and the second is skipped. -/
theorem seq_append_iff {a b : List Operation} {s s' : σ} {o : Outcome} :
    Exec M (.seq (a ++ b)) s s' o ↔
      (∃ t, Exec M (.seq a) s t .normal ∧ Exec M (.seq b) t s' o) ∨
      (Exec M (.seq a) s s' o ∧ o ≠ .normal) := by
  induction a generalizing s with
  | nil =>
      constructor
      · exact fun h => .inl ⟨s, .nil s, h⟩
      · rintro (⟨t, ht, h⟩ | ⟨ht, ho⟩)
        · obtain ⟨rfl, -⟩ := seq_nil_iff.mp ht
          exact h
        · exact absurd (seq_nil_iff.mp ht).2 ho
  | cons op a ih =>
      simp only [List.cons_append, seq_cons_iff, ih]
      constructor
      · rintro (⟨t, h₁, ⟨u, h₂, h₃⟩ | ⟨h₂, ho⟩⟩ | ⟨h, ho⟩)
        · exact .inl ⟨u, .inl ⟨t, h₁, h₂⟩, h₃⟩
        · exact .inr ⟨.inl ⟨t, h₁, h₂⟩, ho⟩
        · exact .inr ⟨.inr ⟨h, ho⟩, ho⟩
      · rintro (⟨u, ⟨t, h₁, h₂⟩ | ⟨-, ho⟩, h₃⟩ | ⟨⟨t, h₁, h₂⟩ | ⟨h, -⟩, ho⟩)
        · exact .inl ⟨t, h₁, .inl ⟨u, h₂, h₃⟩⟩
        · exact absurd rfl ho
        · exact .inl ⟨t, h₁, .inr ⟨h₂, ho⟩⟩
        · exact .inr ⟨h, ho⟩

/-- A sequence of one operation runs that operation. -/
theorem seq_singleton_iff {op : Operation} {s s' : σ} {o : Outcome} :
    Exec M (.seq [op]) s s' o ↔ Exec M (.one op) s s' o := by
  rw [seq_cons_iff]
  constructor
  · rintro (⟨t, h, hnil⟩ | ⟨h, -⟩)
    · obtain ⟨rfl, rfl⟩ := seq_nil_iff.mp hnil
      exact h
    · exact h
  · intro h
    cases o
    · exact .inl ⟨s', h, .nil s'⟩
    all_goals exact .inr ⟨h, nofun⟩

/-- Two sequences after a common prefix run alike when they run alike from every state
the prefix can fall through to. -/
theorem seq_append_congr {a b b' : List Operation} {s s' : σ} {o : Outcome}
    (h : ∀ t, Exec M (.seq a) s t .normal → ∀ s' o,
      (Exec M (.seq b) t s' o ↔ Exec M (.seq b') t s' o)) :
    Exec M (.seq (a ++ b)) s s' o ↔ Exec M (.seq (a ++ b')) s s' o := by
  rw [seq_append_iff, seq_append_iff]
  exact or_congr (exists_congr fun t => and_congr_right fun ha => h t ha s' o) Iff.rfl

/-- An `If` runs its scope when its condition is true, and nothing otherwise. -/
theorem if_iff {cond : Variable} {scope : Scope} {s s' : σ} {o : Outcome} :
    Exec M (.one (.branch (.if cond scope))) s s' o ↔
      Exec M (.seq (if M.truth cond s then scope.operations else [])) s s' o := by
  constructor
  · intro h
    cases h with
    | plain hop => nomatch hop
    | ifTrue htrue h => rwa [htrue, if_pos rfl]
    | ifFalse hfalse => rw [hfalse]; exact .nil s
  · cases htruth : M.truth cond s
    · exact fun h => by obtain ⟨rfl, rfl⟩ := seq_nil_iff.mp h; exact .ifFalse htruth
    · exact .ifTrue htruth

/-- An `IfElse` runs its first scope when its condition is true, and its second
otherwise. -/
theorem ifElse_iff {cond : Variable} {scopeIf scopeElse : Scope} {s s' : σ} {o : Outcome} :
    Exec M (.one (.branch (.ifElse cond scopeIf scopeElse))) s s' o ↔
      Exec M (.seq (if M.truth cond s then scopeIf.operations else scopeElse.operations))
        s s' o := by
  constructor
  · intro h
    cases h with
    | plain hop => nomatch hop
    | ifElseTrue htrue h => rwa [htrue, if_pos rfl]
    | ifElseFalse hfalse h => rwa [hfalse, if_neg Bool.false_ne_true]
  · cases htruth : M.truth cond s
    · exact .ifElseFalse htruth
    · exact .ifElseTrue htruth

/-- `Break` ends in place with `broke`. -/
theorem break_iff {s s' : σ} {o : Outcome} :
    Exec M (.one (.branch .break)) s s' o ↔ s' = s ∧ o = .broke := by
  constructor
  · intro h
    cases h with
    | plain hop => nomatch hop
    | «break» => exact ⟨rfl, rfl⟩
  · rintro ⟨rfl, rfl⟩
    exact .break _

/-- `Return` ends in place with `returned`. -/
theorem return_iff {s s' : σ} {o : Outcome} :
    Exec M (.one (.branch .return)) s s' o ↔ s' = s ∧ o = .returned := by
  constructor
  · intro h
    cases h with
    | plain hop => nomatch hop
    | «return» => exact ⟨rfl, rfl⟩
  · rintro ⟨rfl, rfl⟩
    exact .return _

/-- An operation that is not a branch is one machine step, which ends normally. -/
theorem plain_iff {op : Operation} (hop : op.isBranch = false) {s s' : σ} {o : Outcome} :
    Exec M (.one op) s s' o ↔ s' = M.exec op s ∧ o = .normal := by
  constructor
  · intro h
    cases h with
    | plain => exact ⟨rfl, rfl⟩
    | _ => nomatch hop
  · rintro ⟨rfl, rfl⟩
    exact .plain hop

/-- A `Loop` runs as its scope repeated. -/
theorem loop_iff {scope : Scope} {s s' : σ} {o : Outcome} :
    Exec M (.one (.branch (.loop scope))) s s' o ↔ Exec M (.loopFrom scope) s s' o := by
  constructor
  · intro h
    cases h with
    | plain hop => nomatch hop
    | «loop» h => exact h
  · exact .loop

/-- A `RangeLoop` sets its index to the start, then runs its turns. -/
theorem rangeLoop_iff {i start «end» : Variable} {step : Option Variable} {scope : Scope}
    {s s' : σ} {o : Outcome} :
    Exec M (.one (.branch (.rangeLoop i start «end» step scope))) s s' o ↔
      Exec M (.rangeFrom i «end» step scope) (M.assign i (M.value start s) s) s' o := by
  constructor
  · intro h
    cases h with
    | plain hop => nomatch hop
    | rangeLoop h => exact h
  · exact .rangeLoop

/-- An `If` whose scope is a single `Break` breaks, in place, exactly when its condition is
true, and otherwise falls through. -/
theorem if_break_iff {cond : Variable} {guard : Scope}
    (hguard : guard.operations = [.branch .break]) {s s' : σ} {o : Outcome} :
    Exec M (.one (.branch (.if cond guard))) s s' o ↔
      s' = s ∧ o = if M.truth cond s then .broke else .normal := by
  constructor
  · intro h
    cases h with
    | plain hop => nomatch hop
    | ifTrue htrue h =>
        rw [hguard, seq_cons_iff] at h
        rcases h with ⟨t, hb, -⟩ | ⟨hb, -⟩
        · cases (break_iff.mp hb).2
        · obtain ⟨rfl, rfl⟩ := break_iff.mp hb
          exact ⟨rfl, by simp [htrue]⟩
    | ifFalse hfalse => exact ⟨rfl, by simp [hfalse]⟩
  · rintro ⟨rfl, rfl⟩
    cases htruth : M.truth cond s'
    · exact .ifFalse htruth
    · refine .ifTrue htruth ?_
      rw [hguard]
      exact .stop (.break s') (by simp)

/-- Each code has at most one outcome from a state: the semantics is deterministic. -/
theorem deterministic {c : Code} {s s₁ s₂ : σ} {o₁ o₂ : Outcome} (h₁ : Exec M c s s₁ o₁)
    (h₂ : Exec M c s s₂ o₂) : s₁ = s₂ ∧ o₁ = o₂ := by
  induction h₁ generalizing s₂ o₂ with
  | nil => cases h₂; exact ⟨rfl, rfl⟩
  | next ha hb iha ihb =>
      cases h₂ with
      | next ha' hb' => obtain ⟨rfl, -⟩ := iha ha'; exact ihb hb'
      | stop ha' ho => exact absurd (iha ha').2.symm ho
  | stop ha ho iha =>
      cases h₂ with
      | next ha' _ => exact absurd (iha ha').2 ho
      | stop ha' _ => exact iha ha'
  | plain hop =>
      cases h₂ <;> first | exact ⟨rfl, rfl⟩ | nomatch hop
  | ifTrue ht _ ih =>
      cases h₂ with
      | plain hop => nomatch hop
      | ifTrue _ h => exact ih h
      | ifFalse hf => simp [ht] at hf
  | ifFalse hf =>
      cases h₂ with
      | plain hop => nomatch hop
      | ifTrue ht _ => simp [hf] at ht
      | ifFalse _ => exact ⟨rfl, rfl⟩
  | ifElseTrue ht _ ih =>
      cases h₂ with
      | plain hop => nomatch hop
      | ifElseTrue _ h => exact ih h
      | ifElseFalse hf _ => simp [ht] at hf
  | ifElseFalse hf _ ih =>
      cases h₂ with
      | plain hop => nomatch hop
      | ifElseTrue ht _ => simp [hf] at ht
      | ifElseFalse _ h => exact ih h
  | «loop» _ ih =>
      cases h₂ with
      | plain hop => nomatch hop
      | «loop» h => exact ih h
  | rangeLoop _ ih =>
      cases h₂ with
      | plain hop => nomatch hop
      | rangeLoop h => exact ih h
  | «break» | «return» =>
      cases h₂ with
      | plain hop => nomatch hop
      | _ => exact ⟨rfl, rfl⟩
  | loopNext ha hb iha ihb =>
      cases h₂ with
      | loopNext ha' hb' => obtain ⟨rfl, -⟩ := iha ha'; exact ihb hb'
      | loopBroke ha' | loopReturned ha' => cases (iha ha').2
  | loopBroke ha iha =>
      cases h₂ with
      | loopNext ha' _ | loopReturned ha' => cases (iha ha').2
      | loopBroke ha' => exact ⟨(iha ha').1, rfl⟩
  | loopReturned ha iha =>
      cases h₂ with
      | loopNext ha' _ | loopBroke ha' => cases (iha ha').2
      | loopReturned ha' => exact ⟨(iha ha').1, rfl⟩
  | rangeExit hlt =>
      cases h₂ with
      | rangeExit _ => exact ⟨rfl, rfl⟩
      | rangeNext hlt' _ _ | rangeBroke hlt' _ | rangeReturned hlt' _ => exact absurd hlt' hlt
  | rangeNext hlt ha hb iha ihb =>
      cases h₂ with
      | rangeExit hlt' => exact absurd hlt hlt'
      | rangeNext _ ha' hb' => obtain ⟨rfl, -⟩ := iha ha'; exact ihb hb'
      | rangeBroke _ ha' | rangeReturned _ ha' => cases (iha ha').2
  | rangeBroke hlt ha iha =>
      cases h₂ with
      | rangeExit hlt' => exact absurd hlt hlt'
      | rangeNext _ ha' _ | rangeReturned _ ha' => cases (iha ha').2
      | rangeBroke _ ha' => exact ⟨(iha ha').1, rfl⟩
  | rangeReturned hlt ha iha =>
      cases h₂ with
      | rangeExit hlt' => exact absurd hlt hlt'
      | rangeNext _ ha' _ | rangeBroke _ ha' => cases (iha ha').2
      | rangeReturned _ ha' => exact ⟨(iha ha').1, rfl⟩

end Exec

end CubeCL.IR
