import CubeCL.Frontend.Branch
import CubeCL.IR.Semantics

/-!
# `CubeCL.Frontend.IfExpand`: a branch known at expansion time against one decided at run time

`if_expand(context, comptime_cond, runtime_cond, block)` and `if_else_expand` take a
condition that is either known when the kernel is expanded (`Some(c)`) or only at run time
(`None`, with a runtime condition). With `Some(c)` the chosen body is expanded in the
current scope and the other is never called. With `None` each body is expanded in a child
of the current scope, and the scope registers an `If` or an `IfElse` over those children.

A body emitter whose operations do not depend on the scope it is given runs the same in
both forms (`if_expand_forms_agree`, `if_else_expand_forms_agree`), whatever the machine:
the same final state, and the same outcome, so that a `Break` or a `Return` in a body leaves
the same loop or kernel. Bodies that create variables through the context are compared in
`CubeCL.Frontend.Context`, which adds the kernel's root scope those variables are created in.

The machine is abstract, as in `CubeCL.IR.Semantics`. Where a result needs to know what an
`Assign` does, it asks for `Machine.Assigns`: the output takes the input's value and every
other variable keeps its own.
-/

set_option autoImplicit false

namespace CubeCL.Frontend

open CubeCL.IR

/-! ### A store machine -/

/-- A machine whose state is the value of every variable, and where `Assign` copies its
input's value into its output. -/
def storeMachine : Machine (Variable → Nat) where
  exec op s := match op with
    | .operator (.unary .assign ⟨input, out⟩) => fun v => if v = out then s input else s v
    | _ => s
  value v s := s v
  assign i n s := fun v => if v = i then n else s v

/-- The store where every `u32` and `bool` constant holds its value and every other
variable holds `0`. -/
def constantStore : Variable → Nat
  | .constantScalar (.uint n) => n
  | .constantScalar (.bool b) => if b then 1 else 0
  | _ => 0

/-! ### The two forms, for a body that does not depend on its scope -/

section Forms

variable {σ : Type} (M : Machine σ)

/-- `if_expand` with a known condition appends the body's operations when the condition is
true and nothing when it is false; with a runtime condition it appends one `If` over the
body expanded in a child scope. -/
theorem ifExpand_operations (block : Scope → Scope) (ops : List Operation)
    (hblock : ∀ s, (block s).operations = s.operations ++ ops) (context : Scope)
    (cond : Variable) (c : Bool) :
    (ifExpand context (some c) cond block).operations =
        context.operations ++ (if c then ops else []) ∧
      (ifExpand context none cond block).operations =
        context.operations ++ [.branch (.if cond (block context.child))] := by
  refine ⟨?_, rfl⟩
  cases c
  · exact (List.append_nil _).symm
  · exact hblock context

/-- `if_else_expand` with a known condition appends the chosen body's operations; with a
runtime condition it appends one `IfElse` over the two bodies expanded in child scopes. -/
theorem ifElseExpand_operations (thenBlock elseBlock : Scope → Scope)
    (thenOps elseOps : List Operation)
    (hthen : ∀ s, (thenBlock s).operations = s.operations ++ thenOps)
    (helse : ∀ s, (elseBlock s).operations = s.operations ++ elseOps) (context : Scope)
    (cond : Variable) (c : Bool) :
    (ifElseExpand context (some c) cond thenBlock elseBlock).operations =
        context.operations ++ (if c then thenOps else elseOps) ∧
      (ifElseExpand context none cond thenBlock elseBlock).operations =
        context.operations ++
          [.branch (.ifElse cond (thenBlock context.child) (elseBlock context.child))] := by
  refine ⟨?_, rfl⟩
  cases c
  · exact helse context
  · exact hthen context

/-- For a body whose operations do not depend on its scope, the two forms of `if_expand`
run alike from every state after the context where the runtime condition is `c`. -/
theorem if_expand_forms_agree (block : Scope → Scope) (ops : List Operation)
    (hblock : ∀ s, (block s).operations = s.operations ++ ops) (context : Scope)
    (cond : Variable) (c : Bool) (s₀ s' : σ) (o : Outcome)
    (hcond : ∀ t, Exec M (.seq context.operations) s₀ t .normal → M.truth cond t = c) :
    Exec M (.seq (ifExpand context (some c) cond block).operations) s₀ s' o ↔
      Exec M (.seq (ifExpand context none cond block).operations) s₀ s' o := by
  obtain ⟨hcomptime, hruntime⟩ := ifExpand_operations block ops hblock context cond c
  rw [hcomptime, hruntime]
  refine Exec.seq_append_congr fun t ht s' o => ?_
  rw [Exec.seq_singleton_iff, Exec.if_iff, hcond t ht, hblock, Scope.child_operations,
    List.nil_append]

/-- A body that breaks, under the literal condition `true` in a root scope: both forms
break, in the same state. -/
theorem if_expand_forms_agree_break :
    (∀ s, (breakExpand s).operations = s.operations ++ [.branch .break]) ∧
      (∀ t, Exec storeMachine (.seq Scope.root.operations) constantStore t .normal →
        storeMachine.truth (.constantScalar (.bool true)) t = true) ∧
      Exec storeMachine (.seq (ifExpand Scope.root (some true) (.constantScalar (.bool true))
        breakExpand).operations) constantStore constantStore .broke ∧
      (Exec storeMachine (.seq (ifExpand Scope.root (some true) (.constantScalar (.bool true))
          breakExpand).operations) constantStore constantStore .broke ↔
        Exec storeMachine (.seq (ifExpand Scope.root none (.constantScalar (.bool true))
          breakExpand).operations) constantStore constantStore .broke) :=
  have hblock : ∀ s, (breakExpand s).operations = s.operations ++ [.branch .break] :=
    fun _ => rfl
  have hcond : ∀ t, Exec storeMachine (.seq Scope.root.operations) constantStore t .normal →
      storeMachine.truth (.constantScalar (.bool true)) t = true := fun t ht => by
    obtain ⟨rfl, -⟩ := Exec.seq_nil_iff.mp ht
    rfl
  ⟨hblock, hcond, .stop (.break _) nofun,
    if_expand_forms_agree storeMachine breakExpand _ hblock Scope.root _ true _ _ _ hcond⟩

/-- For bodies whose operations do not depend on their scope, the two forms of
`if_else_expand` run alike from every state after the context where the runtime condition
is `c`. -/
theorem if_else_expand_forms_agree (thenBlock elseBlock : Scope → Scope)
    (thenOps elseOps : List Operation)
    (hthen : ∀ s, (thenBlock s).operations = s.operations ++ thenOps)
    (helse : ∀ s, (elseBlock s).operations = s.operations ++ elseOps) (context : Scope)
    (cond : Variable) (c : Bool) (s₀ s' : σ) (o : Outcome)
    (hcond : ∀ t, Exec M (.seq context.operations) s₀ t .normal → M.truth cond t = c) :
    Exec M (.seq (ifElseExpand context (some c) cond thenBlock elseBlock).operations) s₀ s' o ↔
      Exec M (.seq (ifElseExpand context none cond thenBlock elseBlock).operations) s₀ s' o := by
  obtain ⟨hcomptime, hruntime⟩ :=
    ifElseExpand_operations thenBlock elseBlock thenOps elseOps hthen helse context cond c
  rw [hcomptime, hruntime]
  refine Exec.seq_append_congr fun t ht s' o => ?_
  rw [Exec.seq_singleton_iff, Exec.ifElse_iff, hcond t ht, hthen, helse,
    Scope.child_operations, List.nil_append, List.nil_append]

/-- A body that breaks and one that returns, under the literal condition `false` in a
root scope: both forms return, in the same state. -/
theorem if_else_expand_forms_agree_return :
    (∀ s, (breakExpand s).operations = s.operations ++ [.branch .break]) ∧
      (∀ s, (returnExpand s).operations = s.operations ++ [.branch .return]) ∧
      (∀ t, Exec storeMachine (.seq Scope.root.operations) constantStore t .normal →
        storeMachine.truth (.constantScalar (.bool false)) t = false) ∧
      Exec storeMachine (.seq (ifElseExpand Scope.root (some false)
        (.constantScalar (.bool false)) breakExpand returnExpand).operations) constantStore
        constantStore .returned ∧
      (Exec storeMachine (.seq (ifElseExpand Scope.root (some false)
          (.constantScalar (.bool false)) breakExpand returnExpand).operations) constantStore
          constantStore .returned ↔
        Exec storeMachine (.seq (ifElseExpand Scope.root none
          (.constantScalar (.bool false)) breakExpand returnExpand).operations) constantStore
          constantStore .returned) :=
  have hthen : ∀ s, (breakExpand s).operations = s.operations ++ [.branch .break] :=
    fun _ => rfl
  have helse : ∀ s, (returnExpand s).operations = s.operations ++ [.branch .return] :=
    fun _ => rfl
  have hcond : ∀ t, Exec storeMachine (.seq Scope.root.operations) constantStore t .normal →
      storeMachine.truth (.constantScalar (.bool false)) t = false := fun t ht => by
    obtain ⟨rfl, -⟩ := Exec.seq_nil_iff.mp ht
    rfl
  ⟨hthen, helse, hcond, .stop (.return _) nofun,
    if_else_expand_forms_agree storeMachine breakExpand returnExpand _ _ hthen helse Scope.root _
      false _ _ _ hcond⟩

end Forms

end CubeCL.Frontend
