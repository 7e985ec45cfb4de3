import CubeCL.IR.Scope

/-!
# `CubeCL.Frontend.Branch`: the expansion of control flow

The functions of `frontend/branch.rs`. The `#[cube]` macro turns each loop and branch of a
kernel into a call of one of them, with the loop's or branch's body as a closure over the
expansion context (`codegen_function/branch.rs`).

The expansion context `CubeContext` is declared in a file that is not under `src/`. Of it
these functions use `child()` (a context over `Scope::child` of the current scope),
`register` (`Scope::register` on the current scope) and `into_scope()` (the scope itself),
so a context is modelled as its scope: `child` is `Scope.child`, `register` is
`Scope.register`, and `into_scope` is the identity. A body closure
`FnMut(&mut CubeContext)` is a function `Scope → Scope`; a condition closure returns the
condition's variable too.

The host functions `range` and `range_stepped` give the values of a loop that runs on the
host; `range_expand` and `range_stepped_expand` either unroll the loop at expansion time
(`unroll`) or register a `RangeLoop`. A `panic!` of the source is `none`.
-/

set_option autoImplicit false

namespace CubeCL.Frontend

open CubeCL.IR

/-- `if_expand`: a known condition inlines the body or drops it; a runtime condition
registers an `If` whose scope is the body expanded in a child scope. -/
def ifExpand (context : Scope) (comptimeCond : Option Bool) (runtimeCond : Variable)
    (block : Scope → Scope) : Scope :=
  match comptimeCond with
  | some cond => if cond then block context else context
  | none =>
      let child := block context.child
      context.register (.branch (.if runtimeCond child))

/-- `if_else_expand`: a known condition inlines one of the two bodies; a runtime condition
registers an `IfElse` over two child scopes. -/
def ifElseExpand (context : Scope) (comptimeCond : Option Bool) (runtimeCond : Variable)
    (thenBlock elseBlock : Scope → Scope) : Scope :=
  match comptimeCond with
  | some cond => if cond then thenBlock context else elseBlock context
  | none =>
      let thenChild := thenBlock context.child
      let elseChild := elseBlock context.child
      context.register (.branch (.ifElse runtimeCond thenChild elseChild))

/-- `break_expand`. -/
def breakExpand (context : Scope) : Scope := context.register (.branch .break)

/-- `return_expand`. -/
def returnExpand (context : Scope) : Scope := context.register (.branch .return)

/-- `loop_expand`: the body in a child scope, registered as a `Loop`. -/
def loopExpand (context : Scope) (block : Scope → Scope) : Scope :=
  let insideLoop := block context.child
  context.register (.branch (.loop insideLoop))

/-- `while_loop_expand`: in a child scope, the condition, then
`if_expand(None, cond, break_expand)`, then the body, all registered as one `Loop`. -/
def whileLoopExpand (context : Scope) (condFn : Scope → Variable × Scope)
    (block : Scope → Scope) : Scope :=
  let (cond, insideLoop) := condFn context.child
  let insideLoop := ifExpand insideLoop none cond breakExpand
  let insideLoop := block insideLoop
  context.register (.branch (.loop insideLoop))

/-- The values of the Rust range `start..end`. -/
def rangeValues (start «end» : Nat) : List Nat := List.range' start («end» - start)

/-- The values of `(start..end).step_by(step)`: `start + k * step` for every `k` with that
value below `end`. `step_by(0)` panics. -/
def stepByValues (start «end» step : Nat) : Option (List Nat) :=
  if step = 0 then none
  else some (List.range' start ((«end» - start + step - 1) / step) step)

/-- `range`: the host loop over `start..end`, on `u32` values. -/
def range (start «end» : Nat) (_unroll : Bool) : List Nat := rangeValues start «end»

/-- `range_stepped`: the host loop over `(start..end).step_by(step)`. -/
def rangeStepped (start «end» step : Nat) (_unroll : Bool) : Option (List Nat) :=
  stepByValues start «end» step

/-- The value of a variable that must be a constant to be unrolled: `as_usize` of it, or a
panic. -/
def unrollBound : Variable → Option Nat
  | .constantScalar value => some value.asUsize
  | _ => none

/-- Modelled from the spec: the conversion of a `usize` into an `ExpandElement` is not
under `src/`; it is the `UInt` constant of that value. -/
def constantIndex (i : Nat) : Variable := .constantScalar (.uint i)

/-- A constant bound can be unrolled, with its value. -/
@[simp]
theorem unrollBound_constantIndex (i : Nat) : unrollBound (constantIndex i) = some i := rfl

/-- `range_expand`. Unrolled, the body is expanded in the current scope once per value of
`start..end`, with that value as a constant; otherwise it is expanded once in a child
scope, over an undeclared `u32` local, and registered as a `RangeLoop` without a step. -/
def rangeExpand (context : Scope) (start «end» : Variable) (unroll : Bool)
    (func : Scope → Variable → Scope) : Option Scope :=
  if unroll then do
    let start ← unrollBound start
    let «end» ← unrollBound «end»
    pure ((rangeValues start «end»).foldl (fun context i => func context (constantIndex i))
      context)
  else
    let (i, child) := context.child.createLocalUndeclared (Item.new .uint)
    let child := func child i
    some (context.register (.branch (.rangeLoop i start «end» none child)))

/-- `range_stepped_expand`: as `rangeExpand`, over `(start..end).step_by(step)`, and with
`step` in the `RangeLoop`. -/
def rangeSteppedExpand (context : Scope) (start «end» step : Variable) (unroll : Bool)
    (func : Scope → Variable → Scope) : Option Scope :=
  if unroll then do
    let start ← unrollBound start
    let «end» ← unrollBound «end»
    let step ← unrollBound step
    let values ← stepByValues start «end» step
    pure (values.foldl (fun context i => func context (constantIndex i)) context)
  else
    let (i, child) := context.child.createLocalUndeclared (Item.new .uint)
    let child := func child i
    some (context.register (.branch (.rangeLoop i start «end» (some step) child)))

/-- A body emitter that only appends operations to the scope it is given, as the emitters
the macro generates do: it may create variables, but keeps what was registered. -/
def Appends (block : Scope → Scope) : Prop :=
  ∀ s : Scope, s.operations <+: (block s).operations

end CubeCL.Frontend
