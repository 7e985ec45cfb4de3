import CubeCL.IR.Variable

/-!
# `CubeCL.IR.Operation`: operations and the scope record

The `Operation` sum of `cubecl-core/src/ir` and the `Scope` record of `ir/scope.rs`.

A branch owns its child scopes, and a scope owns its operations, so `Operation`, `Branch`
and `Scope` are one nested inductive. Lean does not admit a `structure` in a `mutual`
block, so the record is `ScopeOf Op`, generic in its operation type, and `Scope` is
`ScopeOf Operation`. Functions over the tree recurse structurally on
`List Operation` and `Branch` together.

The operators of the source come in families that share one operand record: 33 binary
operators over `BinaryOperator`, 17 unary ones over `UnaryOperator`, and four with records
of their own. A family is one constructor with its kind as a parameter (`BinaryKind`,
`UnaryKind`); the WGSL compiler keeps the kind (`Wgsl.Instruction`).

The procedure records `ReadGlobalWithLayout`, `ReadGlobal`, `WriteGlobal` and
`EarlyReturn` have the fields `scope.rs` builds. `IndexOffsetGlobalWithLayout` and the
other procedures, `Metadata`, `Subcube` and `CoopMma` are declared in files not under
`src/`: their fields are the ones `scope.rs` and `compiler.rs` read, and the rest of their
operands are kept as one list.
-/

set_option autoImplicit false

namespace CubeCL.IR

/-- `ReadingStrategy`: how a deferred global read is materialized. -/
inductive ReadingStrategy where
  /-- Read each element in a way compatible with the output layout. -/
  | outputLayout
  /-- Keep the current layout. -/
  | plain
  deriving DecidableEq, Repr

/-- `BinaryOperator`: `out = lhs op rhs`. -/
structure BinaryOperator where
  lhs : Variable
  rhs : Variable
  out : Variable
  deriving DecidableEq, Repr

/-- `UnaryOperator`: `out = op input`. -/
structure UnaryOperator where
  input : Variable
  out : Variable
  deriving DecidableEq, Repr

/-- `ClampOperator`. -/
structure ClampOperator where
  input : Variable
  minValue : Variable
  maxValue : Variable
  out : Variable
  deriving DecidableEq, Repr

/-- `FmaOperator`. -/
structure FmaOperator where
  a : Variable
  b : Variable
  c : Variable
  out : Variable
  deriving DecidableEq, Repr

/-- `SliceOperator`. -/
structure SliceOperator where
  input : Variable
  start : Variable
  «end» : Variable
  out : Variable
  deriving DecidableEq, Repr

/-- `CompareAndSwapOperator`. -/
structure CompareAndSwapOperator where
  input : Variable
  cmp : Variable
  val : Variable
  out : Variable
  deriving DecidableEq, Repr

/-- The operators over a `BinaryOperator`, in the order of `compile_instruction`. -/
inductive BinaryKind where
  | max | min | add | index | uncheckedIndex | modulo | sub | mul | div | powf
  | equal | lower | greater | lowerEqual | greaterEqual | notEqual
  | indexAssign | uncheckedIndexAssign | and | or | bitwiseAnd | bitwiseXor
  | shiftLeft | shiftRight | remainder
  | atomicSwap | atomicAdd | atomicSub | atomicMax | atomicMin | atomicAnd | atomicOr
  | atomicXor
  deriving DecidableEq, Repr

/-- The operators over a `UnaryOperator`, in the order of `compile_instruction`. -/
inductive UnaryKind where
  | abs | exp | log | log1p | cos | sin | tanh | sqrt | floor | ceil | erf | recip
  | assign | not | atomicLoad | atomicStore | bitcast
  deriving DecidableEq, Repr

/-- `ir::Operator`. -/
inductive Operator where
  | binary (kind : BinaryKind) (op : BinaryOperator)
  | unary (kind : UnaryKind) (op : UnaryOperator)
  | fma (op : FmaOperator)
  | clamp (op : ClampOperator)
  | slice (op : SliceOperator)
  | atomicCompareAndSwap (op : CompareAndSwapOperator)
  deriving DecidableEq, Repr

/-- `ReadGlobalWithLayout`, as `Scope::process` builds it. -/
structure ReadGlobalWithLayout where
  globals : List Variable
  layout : Variable
  outs : List Variable
  position : Variable
  deriving DecidableEq, Repr

/-- `ReadGlobal`. -/
structure ReadGlobal where
  global : Variable
  out : Variable
  position : Variable
  deriving DecidableEq, Repr

/-- `WriteGlobal`. -/
structure WriteGlobal where
  input : Variable
  global : Variable
  position : Variable
  deriving DecidableEq, Repr

/-- `EarlyReturn`: the guard `process` puts first in a root scope that writes. -/
structure EarlyReturn where
  global : Variable
  position : Variable
  deriving DecidableEq, Repr

/-- `IndexOffsetGlobalWithLayout`. `Scope::process` backfills `layout`; the other operands
(tensors, indexes, the reference index and the dimension bounds) are `operands`. -/
structure IndexOffsetGlobalWithLayout where
  operands : List Variable
  layout : Variable
  deriving DecidableEq, Repr

/-- `ir::Procedure`. -/
inductive Procedure where
  | readGlobalWithLayout (proc : ReadGlobalWithLayout)
  | readGlobal (proc : ReadGlobal)
  | writeGlobal (proc : WriteGlobal)
  | conditionalAssign (operands : List Variable)
  | checkedIndex (operands : List Variable)
  | checkedIndexAssign (operands : List Variable)
  | indexOffsetGlobalWithLayout (proc : IndexOffsetGlobalWithLayout)
  | earlyReturn (proc : EarlyReturn)
  deriving DecidableEq, Repr

/-- `ir::Metadata`, with the fields `compile_metadata` reads. -/
inductive Metadata where
  | stride (dim var out : Variable)
  | shape (dim var out : Variable)
  | length (var out : Variable)
  deriving DecidableEq, Repr

/-- `ir::Synchronization`. -/
inductive Synchronization where
  | syncUnits
  | syncStorage
  deriving DecidableEq, Repr

/-- The subcube reductions over a `UnaryOperator`. -/
inductive SubcubeKind where
  | all | any | sum | prod | and | or | xor | min | max
  deriving DecidableEq, Repr

/-- `ir::Subcube`. -/
inductive Subcube where
  | elect (out : Variable)
  | reduce (kind : SubcubeKind) (op : UnaryOperator)
  | broadcast (op : BinaryOperator)
  deriving DecidableEq, Repr

/-- The scope record of `ir/scope.rs`, generic in the operation type so that the branches
of `Operation` can own scopes. The deferred lists hold the source's tuples:
`(input, strategy, local, position)`, `(input, output, position)` and `(local, scalar)`. -/
structure ScopeOf (Op : Type) where
  depth : Nat
  operations : List Op
  locals : List Variable
  matrices : List Variable
  slices : List Variable
  sharedMemories : List Variable
  localArrays : List Variable
  readsGlobal : List (Variable × ReadingStrategy × Variable × Variable)
  indexOffsetWithOutputLayoutPosition : List Nat
  writesGlobal : List (Variable × Variable × Variable)
  readsScalar : List (Variable × Variable)
  layoutRef : Option Variable
  undeclared : Nat

mutual

/-- `ir::Operation`. The cooperative matrix operations (`CoopMma`) keep their operands. -/
inductive Operation where
  | operator (op : Operator)
  | procedure (proc : Procedure)
  | metadata (op : Metadata)
  | branch (branch : Branch)
  | synchronization (sync : Synchronization)
  | subcube (op : Subcube)
  | coopMma (operands : List Variable)

/-- `ir::Branch`, with the fields of `If`, `IfElse`, `RangeLoop` and `Loop` inline. -/
inductive Branch where
  | «if» (cond : Variable) (scope : ScopeOf Operation)
  | ifElse (cond : Variable) (scopeIf scopeElse : ScopeOf Operation)
  | rangeLoop (i start «end» : Variable) (step : Option Variable) (scope : ScopeOf Operation)
  | «loop» (scope : ScopeOf Operation)
  | «return»
  | «break»

end

/-- `ir::Scope`. -/
abbrev Scope := ScopeOf Operation

/-- The operator with `g` applied to each of its operands. -/
def Operator.mapVariables (g : Variable → Variable) : Operator → Operator
  | .binary kind op => .binary kind ⟨g op.lhs, g op.rhs, g op.out⟩
  | .unary kind op => .unary kind ⟨g op.input, g op.out⟩
  | .fma op => .fma ⟨g op.a, g op.b, g op.c, g op.out⟩
  | .clamp op => .clamp ⟨g op.input, g op.minValue, g op.maxValue, g op.out⟩
  | .slice op => .slice ⟨g op.input, g op.start, g op.end, g op.out⟩
  | .atomicCompareAndSwap op => .atomicCompareAndSwap ⟨g op.input, g op.cmp, g op.val, g op.out⟩

/-- The procedure with `g` applied to each of its operands. -/
def Procedure.mapVariables (g : Variable → Variable) : Procedure → Procedure
  | .readGlobalWithLayout p =>
      .readGlobalWithLayout ⟨p.globals.map g, g p.layout, p.outs.map g, g p.position⟩
  | .readGlobal p => .readGlobal ⟨g p.global, g p.out, g p.position⟩
  | .writeGlobal p => .writeGlobal ⟨g p.input, g p.global, g p.position⟩
  | .conditionalAssign operands => .conditionalAssign (operands.map g)
  | .checkedIndex operands => .checkedIndex (operands.map g)
  | .checkedIndexAssign operands => .checkedIndexAssign (operands.map g)
  | .indexOffsetGlobalWithLayout p =>
      .indexOffsetGlobalWithLayout ⟨p.operands.map g, g p.layout⟩
  | .earlyReturn p => .earlyReturn ⟨g p.global, g p.position⟩

/-- Modelled from the spec: `Operation::vectorize` is not under `src/`. `Scope::vectorize`
rewrites each operation in place; the spec's `vectorize` broadcasts the factor across
the variables of operators and procedures. The spec says nothing of the other kinds, and
they are kept. -/
def Operation.vectorize (factor : Nat) : Operation → Operation
  | .operator op => .operator (op.mapVariables (Variable.vectorize factor))
  | .procedure proc => .procedure (proc.mapVariables (Variable.vectorize factor))
  | op => op

end CubeCL.IR
