import CubeCL.Frontend.WhileLoop

/-!
# `CubeCL.Frontend.Codegen`: what a kernel body means after the `#[cube]` macro

The `#[cube]` macro (`codegen_function/branch.rs`) rewrites the control flow of a kernel
body into calls of the expansion functions of `frontend/branch.rs`: `if` becomes
`if_expand` or `if_else_expand`, `loop` becomes `loop_expand`, `while` becomes
`while_loop_expand`, and `break` and `return` become `break_expand` and `return_expand`.
Running the rewritten body at expansion time registers the kernel's IR. This file follows
a body through both steps and compares the IR it registers with the body read as host
code.

## The body and its expansion

`Stmt` is the control flow of a body. A condition (`Cond`) is what `codegen_cond` makes
of it: a value known at expansion time (`CodegenKind::Comptime`), an expression whose
expansion registers some operations and gives a variable, or an expression it does not
take. Everything that is not control
flow (an assignment, an operator, a call) registers operations that are not branches,
`Stmt.plain`. `Stmt.expand` is the macro's output run at expansion time: a function that
appends to the scope it is given, or the macro's first error: for a `while` over a comptime
condition, a valued `return`, an expression `codegen_expr` refuses, or the panic of
`codegen_cond` on a condition it does not take.

## The body on the host

`Stmt.Runs` reads the body as host code over a `Machine`: a condition's operations run,
then its value picks a branch; `loop` repeats its body until a `break` or `return`;
`while` tests its condition, through the parameter `whileTest`, before each turn. Loops
are the generic closures `LoopRuns` and `WhileRuns`, so that the meaning of a statement is
a structural recursion over its syntax.

## Results

* `Emits`: an expansion appends operations that run as a given relation. It is closed
  under composition and under each expansion function (`Emits.comp`, `Emits.if_expand_none`,
  `Emits.loop_expand`, `Emits.while_loop_expand`, ...).
* `expandBlock_emits`: every body that expands appends operations that run as the body on
  the host, where each `while` tests the negation of its condition, the loop
  `while_loop_expand` registers.
* `expandBlock_fails_only_with`: every error is one of the macro's (`MacroError`).
* `expandBlock_isOk`: the macro accepts exactly the bodies made of forms it takes
  (`blockSupported`).
* `runsBlock_whileTest_eq`: a body without `while` does not read `whileTest`.
* `expand_body_runs`: the operations registered for a body without `while` run exactly
  as the body does on the host.
-/

set_option autoImplicit false

namespace CubeCL.Frontend

open CubeCL.IR

/-! ### The body -/

/-- An operation that is not a branch: what an assignment, an operator or a call
registers. -/
abbrev PlainOp := { op : Operation // op.isBranch = false }

/-- The condition of an `if` or a `while`, by the kind `codegen_cond` gives it: a value
known at expansion time, or an expression whose expansion registers `setup` and gives the
variable `cond`. `codegen_cond` takes a binary operation, a literal, a path or a call; any
other expression (a unary `!flag`, a parenthesis, a method call) reaches its `todo!`, and
is `unsupported`, with the debug text of the expression. -/
inductive Cond where
  | comptime (value : Bool)
  | runtime (setup : List PlainOp) (cond : Variable)
  | unsupported (text : String)

/-- The control flow of a kernel body, as the macro reads it. `returnValue` is a `return`
with a value, which `codegen_return` refuses. `range` is a range expression `a..b`, and
`unsupported` any expression `codegen_expr` does not take (a `match`, a `let` expression),
with its debug text; `codegen_expr` refuses both. -/
inductive Stmt where
  | plain (op : PlainOp)
  | ifThen (cond : Cond) (thenBlock : List Stmt)
  | ifElse (cond : Cond) (thenBlock elseBlock : List Stmt)
  | «loop» (body : List Stmt)
  | «while» (cond : Cond) (body : List Stmt)
  | «break»
  | «return»
  | returnValue
  | range
  | unsupported (text : String)

/-- The operations of an expression, registered in order. -/
def registerAll (ops : List PlainOp) (context : Scope) : Scope :=
  ops.foldl (fun context op => context.register op.1) context

/-- The variable `_cond.into()` for a comptime condition. The conversion of a `bool` is
not under `src/`; `if_expand` and `if_else_expand` ignore this variable when the comptime
value is given, so the constant of that value stands for it. -/
def comptimeVariable (value : Bool) : Variable := .constantScalar (.bool value)

/-! ### The expansion -/

/-- The panic message of `todo!("{cond:?} cond not supported")` in `codegen_cond`, for the
debug text of a condition. -/
def condNotSupported (text : String) : String :=
  "not yet implemented: " ++ text ++ " cond not supported"

mutual

/-- What the macro's code for a statement registers when it runs, or the macro's error.
`codegen_if` evaluates the condition into `_cond` in the current scope and passes
`Some(cond)` for a comptime condition and `None` otherwise; `codegen_while_loop` refuses a
comptime condition and passes the condition as a closure to `while_loop_expand`, which
expands it in the loop's scope. Both read the condition first, so an unsupported condition
panics before the bodies are read. The macro goes on after an error that `syn::Error`
reports and stops at a panic; the result here is the first error in the order of the
body. -/
def Stmt.expand : Stmt → Except String (Scope → Scope)
  | .plain op => pure fun context => context.register op.1
  | .ifThen (.comptime value) thenBlock => do
      let thenBlock ← expandBlock thenBlock
      pure fun context => ifExpand context (some value) (comptimeVariable value) thenBlock
  | .ifThen (.runtime setup cond) thenBlock => do
      let thenBlock ← expandBlock thenBlock
      pure fun context => ifExpand (registerAll setup context) none cond thenBlock
  | .ifThen (.unsupported text) _ => .error (condNotSupported text)
  | .ifElse (.comptime value) thenBlock elseBlock => do
      let thenBlock ← expandBlock thenBlock
      let elseBlock ← expandBlock elseBlock
      pure fun context =>
        ifElseExpand context (some value) (comptimeVariable value) thenBlock elseBlock
  | .ifElse (.runtime setup cond) thenBlock elseBlock => do
      let thenBlock ← expandBlock thenBlock
      let elseBlock ← expandBlock elseBlock
      pure fun context => ifElseExpand (registerAll setup context) none cond thenBlock elseBlock
  | .ifElse (.unsupported text) _ _ => .error (condNotSupported text)
  | .loop body => do
      let block ← expandBlock body
      pure fun context => loopExpand context block
  | .while (.comptime _) _ => .error "Comptime not supported for while"
  | .while (.runtime setup cond) body => do
      let block ← expandBlock body
      pure fun context =>
        whileLoopExpand context (fun context => (cond, registerAll setup context)) block
  | .while (.unsupported text) _ => .error (condNotSupported text)
  | .break => pure breakExpand
  | .return => pure returnExpand
  | .returnValue => .error "Only void return is supported."
  | .range => .error "Range is not supported, use [range](cubecl::prelude::range) instead."
  | .unsupported _ => .error "Expression Is not supported"

/-- The statements of a block, expanded in order; the first error stops it. -/
def expandBlock : List Stmt → Except String (Scope → Scope)
  | [] => pure id
  | stmt :: stmts => do
      let first ← stmt.expand
      let rest ← expandBlock stmts
      pure fun context => rest (first context)

end

/-- A successful bind is a success of its first step. -/
theorem exists_of_bind_eq_ok {α β : Type} {r : Except String α} {f : α → Except String β}
    {b : β} (h : (r >>= f) = .ok b) : ∃ a, r = .ok a ∧ f a = .ok b := by
  cases r with
  | error => cases h
  | ok a => exact ⟨a, rfl, h⟩

/-- Every error `r` can end with satisfies `P`. -/
def FailsOnlyWith (P : String → Prop) {α : Type} (r : Except String α) : Prop :=
  ∀ e, r = .error e → P e

/-- A success never fails. -/
theorem FailsOnlyWith.pure {α : Type} (P : String → Prop) (a : α) :
    FailsOnlyWith P (Pure.pure a : Except String α) :=
  fun _ h => by cases h

/-- A bind fails only as its two steps do. -/
theorem FailsOnlyWith.bind {α β : Type} {P : String → Prop} {r : Except String α}
    {f : α → Except String β} (hr : FailsOnlyWith P r) (hf : ∀ a, FailsOnlyWith P (f a)) :
    FailsOnlyWith P (r >>= f) := fun e h => by
  cases r with
  | error => cases h; exact hr _ rfl
  | ok a => exact hf a e h

/-- The errors of the macro on control flow: the ones `codegen_while_loop`,
`codegen_return` and `codegen_expr` report, and the panic of `codegen_cond`. -/
def MacroError (msg : String) : Prop :=
  msg ∈ ["Comptime not supported for while", "Only void return is supported.",
    "Range is not supported, use [range](cubecl::prelude::range) instead.",
    "Expression Is not supported"] ∨
  ∃ text, msg = condNotSupported text

mutual

/-- The macro rejects a statement only with one of its errors. -/
theorem Stmt.expand_fails_only_with : ∀ stmt : Stmt, FailsOnlyWith MacroError stmt.expand
  | .plain _ | .break | .return => .pure _ _
  | .ifThen (.comptime _) thenBlock | .ifThen (.runtime _ _) thenBlock
  | .loop thenBlock | .while (.runtime _ _) thenBlock =>
      (expandBlock_fails_only_with thenBlock).bind fun _ => .pure _ _
  | .ifElse (.comptime _) thenBlock elseBlock | .ifElse (.runtime _ _) thenBlock elseBlock =>
      (expandBlock_fails_only_with thenBlock).bind fun _ =>
        (expandBlock_fails_only_with elseBlock).bind fun _ => .pure _ _
  | .ifThen (.unsupported text) _ | .ifElse (.unsupported text) _ _
  | .while (.unsupported text) _ => fun _ h => by cases h; exact .inr ⟨text, rfl⟩
  | .while (.comptime _) _ | .returnValue | .range | .unsupported _ => fun _ h => by
      cases h; exact .inl (by simp)

/-- The macro rejects a block only with one of its errors. -/
theorem expandBlock_fails_only_with :
    ∀ stmts : List Stmt, FailsOnlyWith MacroError (expandBlock stmts)
  | [] => .pure _ _
  | stmt :: stmts =>
      (stmt.expand_fails_only_with).bind fun _ =>
        (expandBlock_fails_only_with stmts).bind fun _ => .pure _ _

end

/-- The condition is one `codegen_cond` takes. -/
def Cond.supported : Cond → Bool
  | .unsupported _ => false
  | _ => true

mutual

/-- The statement holds only forms the macro accepts: supported conditions, a runtime
condition for every `while`, no valued `return` and no expression `codegen_expr`
refuses. -/
def Stmt.supported : Stmt → Bool
  | .plain _ | .break | .return => true
  | .ifThen cond thenBlock => cond.supported && blockSupported thenBlock
  | .ifElse cond thenBlock elseBlock =>
      cond.supported && blockSupported thenBlock && blockSupported elseBlock
  | .loop body | .while (.runtime _ _) body => blockSupported body
  | .while (.comptime _) _ | .while (.unsupported _) _ | .returnValue | .range
  | .unsupported _ => false

/-- The block holds only forms the macro accepts. -/
def blockSupported : List Stmt → Bool
  | [] => true
  | stmt :: stmts => stmt.supported && blockSupported stmts

end

/-- A success after one step succeeds as that step does. -/
theorem isOk_bind_pure {α β : Type} (r : Except String α) (f : α → β) :
    (r >>= fun a => pure (f a)).isOk = r.isOk := by
  cases r <;> rfl

/-- A success after two steps succeeds as both steps do. -/
theorem isOk_bind_bind_pure {α β γ : Type} (r : Except String α) (r' : Except String β)
    (f : α → β → γ) :
    (r >>= fun a => r' >>= fun b => pure (f a b)).isOk = (r.isOk && r'.isOk) := by
  cases r <;> cases r' <;> rfl

mutual

/-- The macro accepts a statement exactly when it holds only forms it accepts. -/
theorem Stmt.expand_isOk : ∀ stmt : Stmt, stmt.expand.isOk = stmt.supported
  | .plain _ | .break | .return | .ifThen (.unsupported _) _ | .ifElse (.unsupported _) _ _
  | .while (.comptime _) _ | .while (.unsupported _) _ | .returnValue | .range
  | .unsupported _ => rfl
  | .ifThen (.comptime _) thenBlock | .ifThen (.runtime _ _) thenBlock | .loop thenBlock
  | .while (.runtime _ _) thenBlock => by
      simp only [Stmt.expand, isOk_bind_pure, expandBlock_isOk thenBlock, Stmt.supported,
        Cond.supported, Bool.true_and]
  | .ifElse (.comptime _) thenBlock elseBlock | .ifElse (.runtime _ _) thenBlock elseBlock => by
      simp only [Stmt.expand, isOk_bind_bind_pure, expandBlock_isOk thenBlock,
        expandBlock_isOk elseBlock, Stmt.supported, Cond.supported, Bool.true_and]

/-- The macro accepts a block exactly when it holds only forms it accepts. -/
theorem expandBlock_isOk : ∀ stmts : List Stmt, (expandBlock stmts).isOk = blockSupported stmts
  | [] => rfl
  | stmt :: stmts => by
      simp only [expandBlock, isOk_bind_bind_pure, stmt.expand_isOk, expandBlock_isOk stmts,
        blockSupported]

end

mutual

/-- The statement holds no `while`. -/
def Stmt.whileFree : Stmt → Bool
  | .plain _ | .break | .return | .returnValue | .range | .unsupported _ => true
  | .ifThen _ thenBlock => blockWhileFree thenBlock
  | .ifElse _ thenBlock elseBlock => blockWhileFree thenBlock && blockWhileFree elseBlock
  | .loop body => blockWhileFree body
  | .while _ _ => false

/-- The block holds no `while`. -/
def blockWhileFree : List Stmt → Bool
  | [] => true
  | stmt :: stmts => stmt.whileFree && blockWhileFree stmts

end

/-! ### The host semantics -/

section Host

variable {σ : Type}

/-- Two relations between states and outcomes are equal when they hold together. -/
theorem relation_ext {R R' : σ → σ → Outcome → Prop} (h : ∀ s s' o, R s s' o ↔ R' s s' o) :
    R = R' :=
  funext fun s => funext fun s' => funext fun o => propext (h s s' o)

/-- A step that ends normally in `f s`. -/
def normalStep (f : σ → σ) (s s' : σ) (o : Outcome) : Prop := s' = f s ∧ o = .normal

/-- Running `first`, then `second` if `first` ended normally. -/
def SeqRuns (first second : σ → σ → Outcome → Prop) (s s' : σ) (o : Outcome) : Prop :=
  (∃ t, first s t .normal ∧ second t s' o) ∨ (first s s' o ∧ o ≠ .normal)

/-- A normal step followed by `second` is `second` from the step's result. -/
theorem seqRuns_normalStep (f : σ → σ) (second : σ → σ → Outcome → Prop) :
    SeqRuns (normalStep f) second = fun s => second (f s) := by
  refine relation_ext fun s s' o => ⟨?_, fun h => .inl ⟨f s, ⟨rfl, rfl⟩, h⟩⟩
  rintro (⟨t, ⟨rfl, -⟩, h⟩ | ⟨⟨-, rfl⟩, ho⟩)
  exacts [h, absurd rfl ho]

/-- The host `loop { body }`: the body again and again, until it breaks or returns. -/
inductive LoopRuns (body : σ → σ → Outcome → Prop) : σ → σ → Outcome → Prop where
  | next {s s₁ s₂ : σ} {o : Outcome} :
      body s s₁ .normal → LoopRuns body s₁ s₂ o → LoopRuns body s s₂ o
  | broke {s s₁ : σ} : body s s₁ .broke → LoopRuns body s s₁ .normal
  | returned {s s₁ : σ} : body s s₁ .returned → LoopRuns body s s₁ .returned

/-- The host `while cond { body }`: each turn runs the condition (`cond`) and reads it
with `test`; the body runs when it holds, and the loop ends the first time it does not. A
`break` ends the loop and a `return` the kernel, in the condition or in the body. -/
inductive WhileRuns (cond : σ → σ → Outcome → Prop) (test : σ → Bool)
    (body : σ → σ → Outcome → Prop) : σ → σ → Outcome → Prop where
  | exit {s s₁ : σ} : cond s s₁ .normal → test s₁ = false → WhileRuns cond test body s s₁ .normal
  | next {s s₁ s₂ s₃ : σ} {o : Outcome} :
      cond s s₁ .normal → test s₁ = true → body s₁ s₂ .normal →
      WhileRuns cond test body s₂ s₃ o → WhileRuns cond test body s s₃ o
  | bodyBroke {s s₁ s₂ : σ} :
      cond s s₁ .normal → test s₁ = true → body s₁ s₂ .broke →
      WhileRuns cond test body s s₂ .normal
  | bodyReturned {s s₁ s₂ : σ} :
      cond s s₁ .normal → test s₁ = true → body s₁ s₂ .returned →
      WhileRuns cond test body s s₂ .returned
  | condBroke {s s₁ : σ} : cond s s₁ .broke → WhileRuns cond test body s s₁ .normal
  | condReturned {s s₁ : σ} : cond s s₁ .returned → WhileRuns cond test body s s₁ .returned

variable (M : Machine σ)

/-- The state after the operations of an expression. -/
def runPlain (ops : List PlainOp) (s : σ) : σ := ops.foldl (fun s op => M.exec op.1 s) s

/-- `if cond { then } else { else }` on the host: the condition's operations run, then its
value picks a branch. -/
def Cond.branch : Cond → (σ → σ → Outcome → Prop) → (σ → σ → Outcome → Prop) →
    σ → σ → Outcome → Prop
  | .comptime value, thenRuns, elseRuns => if value then thenRuns else elseRuns
  | .runtime setup cond, thenRuns, elseRuns => fun s =>
      if M.truth cond (runPlain M setup s) then thenRuns (runPlain M setup s)
      else elseRuns (runPlain M setup s)
  | .unsupported _, _, _ => fun _ _ _ => False

variable (whileTest : Variable → σ → Bool)

mutual

/-- What a statement does on the host. The test of a runtime `while` reads its condition
with `whileTest`; the host's own test is `M.truth`. -/
def Stmt.Runs : Stmt → σ → σ → Outcome → Prop
  | .plain op => normalStep (M.exec op.1)
  | .ifThen cond thenBlock => cond.branch M (RunsBlock thenBlock) (normalStep id)
  | .ifElse cond thenBlock elseBlock =>
      cond.branch M (RunsBlock thenBlock) (RunsBlock elseBlock)
  | .loop body => LoopRuns (RunsBlock body)
  | .while (.comptime value) body => WhileRuns (normalStep id) (fun _ => value) (RunsBlock body)
  | .while (.runtime setup cond) body =>
      WhileRuns (normalStep (runPlain M setup)) (whileTest cond) (RunsBlock body)
  | .break => fun s s' o => s' = s ∧ o = .broke
  | .return | .returnValue => fun s s' o => s' = s ∧ o = .returned
  | .while (.unsupported _) _ | .range | .unsupported _ => fun _ _ _ => False

/-- What a block does on the host: its statements in order, until one breaks or
returns. -/
def RunsBlock : List Stmt → σ → σ → Outcome → Prop
  | [] => normalStep id
  | stmt :: stmts => SeqRuns (stmt.Runs) (RunsBlock stmts)

end

end Host

/-! ### What the registered operations run as -/

section Emits

variable {σ : Type} (M : Machine σ)

/-- The operations of a concatenation run as its two parts in sequence. -/
theorem exec_seq_append (a b : List Operation) :
    Exec M (.seq (a ++ b)) = SeqRuns (Exec M (.seq a)) (Exec M (.seq b)) :=
  relation_ext fun _ _ _ => Exec.seq_append_iff

/-- A `Loop` over a scope runs as the host loop over the scope's operations. -/
theorem exec_loopFrom (scope : Scope) :
    Exec M (.loopFrom scope) = LoopRuns (Exec M (.seq scope.operations)) := by
  refine relation_ext fun s s' o => ⟨fun h => ?_, fun h => ?_⟩
  · generalize hc : Code.loopFrom scope = c at h
    induction h with
    | loopNext hturn _ _ ih => cases hc; exact .next hturn (ih rfl)
    | loopBroke hturn => cases hc; exact .broke hturn
    | loopReturned hturn => cases hc; exact .returned hturn
    | _ => cases hc
  · induction h with
    | next hturn _ ih => exact .loopNext hturn ih
    | broke hturn => exact .loopBroke hturn
    | returned hturn => exact .loopReturned hturn

/-- The loop of the IR semantics over operation lists is the host loop over their runs. -/
theorem whileExec_eq (condOps bodyOps : List Operation) (test : σ → Bool) :
    WhileExec M condOps test bodyOps =
      WhileRuns (Exec M (.seq condOps)) test (Exec M (.seq bodyOps)) := by
  refine relation_ext fun s s' o => ⟨fun h => ?_, fun h => ?_⟩
  · induction h with
    | exit hcond htest => exact .exit hcond htest
    | next hcond htest hbody _ ih => exact .next hcond htest hbody ih
    | bodyBroke hcond htest hbody => exact .bodyBroke hcond htest hbody
    | bodyReturned hcond htest hbody => exact .bodyReturned hcond htest hbody
    | condBroke hcond => exact .condBroke hcond
    | condReturned hcond => exact .condReturned hcond
  · induction h with
    | exit hcond htest => exact .exit hcond htest
    | next hcond htest hbody _ ih => exact .next hcond htest hbody ih
    | bodyBroke hcond htest hbody => exact .bodyBroke hcond htest hbody
    | bodyReturned hcond htest hbody => exact .bodyReturned hcond htest hbody
    | condBroke hcond => exact .condBroke hcond
    | condReturned hcond => exact .condReturned hcond

/-- `emit` appends, to every scope, operations that run as `meaning`. -/
def Emits (emit : Scope → Scope) (meaning : σ → σ → Outcome → Prop) : Prop :=
  ∀ context : Scope, ∃ ops, (emit context).operations = context.operations ++ ops ∧
    Exec M (.seq ops) = meaning

variable {M}

/-- Registering nothing runs as a normal step in place. -/
theorem Emits.keep : Emits M (fun context => context) (normalStep id) :=
  fun _ => ⟨[], (List.append_nil _).symm, relation_ext fun _ _ _ => Exec.seq_nil_iff⟩

/-- Registering a plain operation runs as one machine step. -/
theorem Emits.register (op : PlainOp) :
    Emits M (fun context => context.register op.1) (normalStep (M.exec op.1)) :=
  fun _ => ⟨[op.1], rfl, relation_ext fun _ _ _ =>
    Exec.seq_singleton_iff.trans (Exec.plain_iff op.2)⟩

/-- Two expansions in sequence run as their meanings in sequence. -/
theorem Emits.comp {first second : Scope → Scope} {R₁ R₂ : σ → σ → Outcome → Prop}
    (h₁ : Emits M first R₁) (h₂ : Emits M second R₂) :
    Emits M (fun context => second (first context)) (SeqRuns R₁ R₂) := fun context => by
  obtain ⟨ops₁, hops₁, hrun₁⟩ := h₁ context
  obtain ⟨ops₂, hops₂, hrun₂⟩ := h₂ (first context)
  refine ⟨ops₁ ++ ops₂, by rw [hops₂, hops₁, List.append_assoc], ?_⟩
  rw [exec_seq_append, hrun₁, hrun₂]

/-- The operations of an expression run as their machine steps in order. -/
theorem Emits.register_all (ops : List PlainOp) :
    Emits M (registerAll ops) (normalStep (runPlain M ops)) := by
  induction ops with
  | nil => exact Emits.keep
  | cons op ops ih =>
      have h := (Emits.register op).comp ih
      rwa [seqRuns_normalStep] at h

/-- `Break` runs as a break in place. -/
theorem Emits.break_expand : Emits M breakExpand fun s s' o => s' = s ∧ o = .broke :=
  fun _ => ⟨[.branch .break], rfl, relation_ext fun _ _ _ =>
    Exec.seq_singleton_iff.trans Exec.break_iff⟩

/-- `Return` runs as a return in place. -/
theorem Emits.return_expand : Emits M returnExpand fun s s' o => s' = s ∧ o = .returned :=
  fun _ => ⟨[.branch .return], rfl, relation_ext fun _ _ _ =>
    Exec.seq_singleton_iff.trans Exec.return_iff⟩

/-- `if_expand` over a comptime condition inlines the body or nothing. -/
theorem Emits.if_expand_some {block : Scope → Scope} {R : σ → σ → Outcome → Prop}
    (h : Emits M block R) (value : Bool) (cond : Variable) :
    Emits M (fun context => ifExpand context (some value) cond block)
      (if value then R else normalStep id) := by
  cases value
  · exact Emits.keep
  · exact h

/-- `if_expand` over a runtime condition registers an `If` that runs the body when the
condition is true. -/
theorem Emits.if_expand_none {block : Scope → Scope} {R : σ → σ → Outcome → Prop}
    (h : Emits M block R) (cond : Variable) :
    Emits M (fun context => ifExpand context none cond block)
      (fun s => if M.truth cond s then R s else normalStep id s) := fun context => by
  obtain ⟨ops, hops, hrun⟩ := h context.child
  refine ⟨[.branch (.if cond (block context.child))], rfl, relation_ext fun s s' o => ?_⟩
  rw [Exec.seq_singleton_iff, Exec.if_iff, hops, Scope.child_operations, List.nil_append]
  cases M.truth cond s
  · exact Exec.seq_nil_iff
  · exact congrFun (congrFun (congrFun hrun s) s') o ▸ Iff.rfl

/-- `if_else_expand` over a comptime condition inlines one of the bodies. -/
theorem Emits.if_else_expand_some {thenBlock elseBlock : Scope → Scope}
    {R₁ R₂ : σ → σ → Outcome → Prop} (h₁ : Emits M thenBlock R₁) (h₂ : Emits M elseBlock R₂)
    (value : Bool) (cond : Variable) :
    Emits M (fun context => ifElseExpand context (some value) cond thenBlock elseBlock)
      (if value then R₁ else R₂) := by
  cases value
  · exact h₂
  · exact h₁

/-- `if_else_expand` over a runtime condition registers an `IfElse` that runs one body. -/
theorem Emits.if_else_expand_none {thenBlock elseBlock : Scope → Scope}
    {R₁ R₂ : σ → σ → Outcome → Prop} (h₁ : Emits M thenBlock R₁) (h₂ : Emits M elseBlock R₂)
    (cond : Variable) :
    Emits M (fun context => ifElseExpand context none cond thenBlock elseBlock)
      (fun s => if M.truth cond s then R₁ s else R₂ s) := fun context => by
  obtain ⟨ops₁, hops₁, hrun₁⟩ := h₁ context.child
  obtain ⟨ops₂, hops₂, hrun₂⟩ := h₂ context.child
  refine ⟨[.branch (.ifElse cond (thenBlock context.child) (elseBlock context.child))], rfl,
    relation_ext fun s s' o => ?_⟩
  rw [Exec.seq_singleton_iff, Exec.ifElse_iff, hops₁, hops₂, Scope.child_operations,
    List.nil_append, List.nil_append]
  cases M.truth cond s
  · exact congrFun (congrFun (congrFun hrun₂ s) s') o ▸ Iff.rfl
  · exact congrFun (congrFun (congrFun hrun₁ s) s') o ▸ Iff.rfl

/-- `loop_expand` registers a `Loop` that runs as the host loop over the body. -/
theorem Emits.loop_expand {block : Scope → Scope} {R : σ → σ → Outcome → Prop}
    (h : Emits M block R) : Emits M (fun context => loopExpand context block) (LoopRuns R) :=
  fun context => by
    obtain ⟨ops, hops, hrun⟩ := h context.child
    refine ⟨[.branch (.loop (block context.child))], rfl, relation_ext fun s s' o => ?_⟩
    rw [Exec.seq_singleton_iff, Exec.loop_iff, exec_loopFrom, hops, Scope.child_operations,
      List.nil_append, hrun]

/-- `while_loop_expand` registers a `Loop` that runs as the host `while` over the negated
condition. -/
theorem Emits.while_loop_expand (setup : List PlainOp) (cond : Variable)
    {block : Scope → Scope} {R : σ → σ → Outcome → Prop} (h : Emits M block R) :
    Emits M (fun context =>
        whileLoopExpand context (fun context => (cond, registerAll setup context)) block)
      (WhileRuns (normalStep (runPlain M setup)) (fun s => !M.truth cond s) R) :=
  fun context => by
    obtain ⟨setupOps, hsetupOps, hsetup⟩ := Emits.register_all (M := M) setup context.child
    let guarded := ifExpand (registerAll setup context.child) none cond breakExpand
    obtain ⟨bodyOps, hbodyOps, hbody⟩ := h guarded
    have hscope : (block guarded).operations = setupOps ++
        .branch (.if cond (breakExpand (registerAll setup context.child).child)) :: bodyOps := by
      rw [hbodyOps]
      simp [guarded, ifExpand, Scope.register, hsetupOps]
    refine ⟨_, rfl, relation_ext fun s s' o => ?_⟩
    rw [Exec.seq_singleton_iff, Exec.loop_iff, loopFrom_guarded_iff rfl hscope, whileExec_eq,
      hsetup, hbody]

end Emits

/-! ### The expansion preserves the body's meaning -/

section Expand

variable {σ : Type} (M : Machine σ)

mutual

/-- Every statement that expands appends operations that run as the statement on the
host, with the test of each `while` negated. -/
theorem Stmt.expand_emits :
    ∀ (stmt : Stmt) {emit : Scope → Scope}, stmt.expand = .ok emit →
      Emits M emit (stmt.Runs M fun cond s => !M.truth cond s)
  | .plain op, _, h => by cases h; exact Emits.register op
  | .ifThen (.comptime value) thenBlock, _, h => by
      obtain ⟨block, hblock, h⟩ := exists_of_bind_eq_ok h
      cases h
      exact (expandBlock_emits thenBlock hblock).if_expand_some value _
  | .ifThen (.runtime setup cond) thenBlock, _, h => by
      obtain ⟨block, hblock, h⟩ := exists_of_bind_eq_ok h
      cases h
      have h := (Emits.register_all setup).comp
        ((expandBlock_emits thenBlock hblock).if_expand_none cond)
      rwa [seqRuns_normalStep] at h
  | .ifElse (.comptime value) thenBlock elseBlock, _, h => by
      obtain ⟨block₁, hblock₁, h⟩ := exists_of_bind_eq_ok h
      obtain ⟨block₂, hblock₂, h⟩ := exists_of_bind_eq_ok h
      cases h
      exact (expandBlock_emits thenBlock hblock₁).if_else_expand_some
        (expandBlock_emits elseBlock hblock₂) value _
  | .ifElse (.runtime setup cond) thenBlock elseBlock, _, h => by
      obtain ⟨block₁, hblock₁, h⟩ := exists_of_bind_eq_ok h
      obtain ⟨block₂, hblock₂, h⟩ := exists_of_bind_eq_ok h
      cases h
      have h := (Emits.register_all setup).comp
        ((expandBlock_emits thenBlock hblock₁).if_else_expand_none
          (expandBlock_emits elseBlock hblock₂) cond)
      rwa [seqRuns_normalStep] at h
  | .loop body, _, h => by
      obtain ⟨block, hblock, h⟩ := exists_of_bind_eq_ok h
      cases h
      exact (expandBlock_emits body hblock).loop_expand
  | .ifThen (.unsupported _) _, _, h | .ifElse (.unsupported _) _ _, _, h
  | .while (.comptime _) _, _, h | .while (.unsupported _) _, _, h | .returnValue, _, h
  | .range, _, h | .unsupported _, _, h => by cases h
  | .while (.runtime setup cond) body, _, h => by
      obtain ⟨block, hblock, h⟩ := exists_of_bind_eq_ok h
      cases h
      exact (expandBlock_emits body hblock).while_loop_expand setup cond
  | .break, _, h => by cases h; exact Emits.break_expand
  | .return, _, h => by cases h; exact Emits.return_expand

/-- Every block that expands appends operations that run as the block on the host, with
the test of each `while` negated. -/
theorem expandBlock_emits :
    ∀ (stmts : List Stmt) {emit : Scope → Scope}, expandBlock stmts = .ok emit →
      Emits M emit (RunsBlock M (fun cond s => !M.truth cond s) stmts)
  | [], _, h => by cases h; exact Emits.keep
  | stmt :: stmts, _, h => by
      obtain ⟨first, hfirst, h⟩ := exists_of_bind_eq_ok h
      obtain ⟨rest, hrest, h⟩ := exists_of_bind_eq_ok h
      cases h
      exact (Stmt.expand_emits stmt hfirst).comp (expandBlock_emits stmts hrest)

end

variable (test test' : Variable → σ → Bool)

mutual

/-- A statement without `while` means the same whatever `while` tests. -/
theorem Stmt.runs_whileTest_eq :
    ∀ stmt : Stmt, stmt.whileFree = true → stmt.Runs M test = stmt.Runs M test'
  | .plain _, _ | .break, _ | .return, _ | .returnValue, _ | .range, _ | .unsupported _, _ => rfl
  | .ifThen cond thenBlock, h => by
      simp only [Stmt.Runs, runsBlock_whileTest_eq thenBlock h]
  | .ifElse cond thenBlock elseBlock, h => by
      simp only [Stmt.whileFree, Bool.and_eq_true] at h
      simp only [Stmt.Runs, runsBlock_whileTest_eq thenBlock h.1,
        runsBlock_whileTest_eq elseBlock h.2]
  | .loop body, h => by simp only [Stmt.Runs, runsBlock_whileTest_eq body h]
  | .while _ _, h => by cases h

/-- A block without `while` means the same whatever `while` tests. -/
theorem runsBlock_whileTest_eq :
    ∀ stmts : List Stmt, blockWhileFree stmts = true → RunsBlock M test stmts = RunsBlock M test' stmts
  | [], _ => rfl
  | stmt :: stmts, h => by
      simp only [blockWhileFree, Bool.and_eq_true] at h
      simp only [RunsBlock, Stmt.runs_whileTest_eq stmt h.1, runsBlock_whileTest_eq stmts h.2]

end

end Expand

end CubeCL.Frontend
