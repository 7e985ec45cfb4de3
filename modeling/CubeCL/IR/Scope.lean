import CubeCL.IR.Operation

/-!
# `CubeCL.IR.Scope`: the methods of `Scope`

The methods of `ir/scope.rs`, each a function from the scope to the variable it hands out
and the scope after it. A method that can panic (an `unwrap` or an `expect`) returns an
`Option`, with `none` for the panic.

The `u16` counters wrap as in a release build: `newLocalIndex` is
`locals.len() as u16 + undeclared` taken modulo `2 ^ 16`, and `process` adds
`locals.len() as u16` to `undeclared` the same way. The `u8` depth is a `Nat`; no scope
tree is nested 256 deep.

`Scope::process` builds a `ScopeProcessing` and ends with `ScopeProcessing::optimize`,
which is not under `src/`. `processing` is the whole of `process` up to that call, with
the loops of the source as folds that push onto the end of a list; `process` applies a
given `optimize` to it. `process_eq` in `CubeCL.IR.Process` states what the folds build.
-/

set_option autoImplicit false

namespace CubeCL.IR

/-- `ScopeProcessing`: the variables to declare and the operations to run. -/
structure ScopeProcessing where
  «variables» : List Variable
  operations : List Operation

/-- Modelled from the spec: `num_traits::ToPrimitive`, which `create_with_value` takes its
value through, is not under `src/`. The conversions it calls, with `none` for a value out
of the target's range (where `unwrap` panics); `toF64` gives the bit pattern. -/
structure Primitive where
  toF64 : Option Nat
  toI64 : Option Int
  toU64 : Option Nat
  toU32 : Option Nat

namespace Scope

/-- `Scope::root`: the empty scope at depth 0. -/
def root : Scope where
  depth := 0
  operations := []
  locals := []
  matrices := []
  slices := []
  sharedMemories := []
  localArrays := []
  readsGlobal := []
  indexOffsetWithOutputLayoutPosition := []
  writesGlobal := []
  readsScalar := []
  layoutRef := none
  undeclared := 0

/-- `Scope::child`: an empty scope one level down that keeps the parent's layout
reference. -/
def child (s : Scope) : Scope where
  depth := s.depth + 1
  operations := []
  locals := []
  matrices := []
  slices := []
  sharedMemories := []
  localArrays := []
  readsGlobal := []
  indexOffsetWithOutputLayoutPosition := []
  writesGlobal := []
  readsScalar := []
  layoutRef := s.layoutRef
  undeclared := 0

/-- A child scope starts with no operation. -/
@[simp]
theorem child_operations (s : Scope) : s.child.operations = [] := rfl

/-- A child scope starts with no shared memory. -/
@[simp]
theorem child_sharedMemories (s : Scope) : s.child.sharedMemories = [] := rfl

/-- `Scope::new_local_index`: `locals.len() as u16 + undeclared`. -/
def newLocalIndex (s : Scope) : Nat := asU16 (asU16 s.locals.length + s.undeclared)

/-- `Scope::new_local_scalar_index`. -/
def newLocalScalarIndex (s : Scope) : Nat := asU16 s.readsScalar.length

/-- `Scope::new_shared_index`. -/
def newSharedIndex (s : Scope) : Nat := asU16 s.sharedMemories.length

/-- `Scope::new_local_array_index`. -/
def newLocalArrayIndex (s : Scope) : Nat := asU16 s.localArrays.length

/-- `Scope::register`: append a fully resolved operation. -/
def register (s : Scope) (operation : Operation) : Scope :=
  { s with operations := s.operations ++ [operation] }

/-- `Scope::create_local`. -/
def createLocal (s : Scope) (item : Item) : Variable × Scope :=
  let «local» := Variable.local s.newLocalIndex item s.depth
  («local», { s with locals := s.locals ++ [«local»] })

/-- `Scope::create_local_undeclared`: a fresh local that `process` will not declare. -/
def createLocalUndeclared (s : Scope) (item : Item) : Variable × Scope :=
  (Variable.local s.newLocalIndex item s.depth, { s with undeclared := asU16 (s.undeclared + 1) })

/-- `cpa!(self, local = value)`: register `Assign { input: value, out: local }`. -/
def assign (s : Scope) (value «local» : Variable) : Scope :=
  s.register (.operator (.unary .assign ⟨value, «local»⟩))

/-- `Scope::zero`: a local assigned the constant `0u32`. -/
def zero (s : Scope) (item : Item) : Variable × Scope :=
  let («local», s) := s.createLocal item
  («local», s.assign (.constantScalar (.uint 0)) «local»)

/-- The constant of `create_with_value`, converted for the item's element; `none` where
the conversion's `unwrap` panics. -/
def constantOf (value : Primitive) : Elem → Option ConstantScalarValue
  | .float kind => value.toF64.map (.float · kind)
  | .int kind => value.toI64.map (.int · kind)
  | .atomicInt kind => value.toI64.map (.int · kind)
  | .uint => value.toU64.map .uint
  | .atomicUInt => value.toU64.map .uint
  | .bool => value.toU32.map fun v => .bool (v == 1)

/-- `Scope::create_with_value`: a local assigned the value, converted for the item. -/
def createWithValue (s : Scope) (value : Primitive) (item : Item) : Option (Variable × Scope) :=
  (constantOf value item.elem).map fun c =>
    let («local», s) := s.createLocal item
    («local», s.assign (.constantScalar c) «local»)

/-- `Scope::create_matrix`. -/
def createMatrix (s : Scope) (matrix : Matrix) : Variable × Scope :=
  let var := Variable.matrix (asU16 s.matrices.length) matrix s.depth
  (var, { s with matrices := s.matrices ++ [var] })

/-- `Scope::create_slice`. -/
def createSlice (s : Scope) (item : Item) : Variable × Scope :=
  let var := Variable.slice (asU16 s.slices.length) item s.depth
  (var, { s with slices := s.slices ++ [var] })

/-- `Scope::read_input_strategy`: record a deferred read of input `index` into a new
declared local. A boolean input is read from a `u32` array. -/
def readInputStrategy (s : Scope) (index : Nat) (item : Item) (strategy : ReadingStrategy)
    (position : Variable) : Variable × Scope :=
  let itemGlobal := match item.elem with
    | .bool => { elem := .uint, vectorization := item.vectorization }
    | _ => item
  let input := Variable.globalInputArray index itemGlobal
  let «local» := Variable.local s.newLocalIndex item s.depth
  («local», { s with
    readsGlobal := s.readsGlobal ++ [(input, strategy, «local», position)]
    locals := s.locals ++ [«local»] })

/-- `Scope::read_array`: a deferred read with the `OutputLayout` strategy. -/
def readArray (s : Scope) (index : Nat) (item : Item) (position : Variable) :
    Variable × Scope :=
  s.readInputStrategy index item .outputLayout position

/-- `Scope::index_offset_with_output_layout`: register the procedure and remember its
position, so that `process` can set its layout. -/
def indexOffsetWithOutputLayout (s : Scope) (proc : IndexOffsetGlobalWithLayout) : Scope :=
  { s with
    indexOffsetWithOutputLayoutPosition :=
      s.indexOffsetWithOutputLayoutPosition ++ [s.operations.length]
    operations := s.operations ++ [.procedure (.indexOffsetGlobalWithLayout proc)] }

/-- `Scope::read_scalar`: record a deferred read of the scalar `index` into a new
`LocalScalar`. -/
def readScalar (s : Scope) (index : Nat) (elem : Elem) : Variable × Scope :=
  let «local» := Variable.localScalar s.newLocalScalarIndex elem s.depth
  («local», { s with readsScalar := s.readsScalar ++ [(«local», .globalScalar index elem)] })

/-- `Scope::vectorize`: rewrite every operation, declared local and deferred read or write
in place. -/
def vectorize (s : Scope) (factor : Nat) : Scope :=
  { s with
    operations := s.operations.map (Operation.vectorize factor)
    locals := s.locals.map (Variable.vectorize factor)
    readsGlobal := s.readsGlobal.map fun (input, strategy, output, position) =>
      (input.vectorize factor, strategy, output.vectorize factor, position)
    writesGlobal := s.writesGlobal.map fun (input, output, position) =>
      (input.vectorize factor, output.vectorize factor, position) }

/-- `Scope::write_global`: record a deferred write; the first output written becomes the
layout reference. -/
def writeGlobal (s : Scope) (input output position : Variable) : Scope :=
  { s with
    layoutRef := if s.layoutRef.isNone then some output else s.layoutRef
    writesGlobal := s.writesGlobal ++ [(input, output, position)] }

/-- `Scope::write_global_custom`: record only the layout intent. -/
def writeGlobalCustom (s : Scope) (output : Variable) : Scope :=
  { s with layoutRef := if s.layoutRef.isNone then some output else s.layoutRef }

/-- `Scope::update_read`: set the strategy of the first pending read of input `index`.
Later reads of the same input keep theirs. -/
def updateRead (s : Scope) (index : Nat) (strategy : ReadingStrategy) : Scope :=
  match s.readsGlobal.findIdx? (fun r => r.1.index? == some index) with
  | some k =>
      { s with readsGlobal := s.readsGlobal.modify (fun r => (r.1, strategy, r.2.2)) k }
  | none => s

/-- `Scope::create_shared`. -/
def createShared (s : Scope) (item : Item) (sharedMemorySize : Nat) : Variable × Scope :=
  let sharedMemory := Variable.sharedMemory s.newSharedIndex item sharedMemorySize
  (sharedMemory, { s with sharedMemories := s.sharedMemories ++ [sharedMemory] })

/-- `Scope::create_local_array`. -/
def createLocalArray (s : Scope) (item : Item) (arraySize : Nat) : Variable × Scope :=
  let localArray := Variable.localArray s.newLocalArrayIndex item s.depth arraySize
  (localArray, { s with localArrays := s.localArrays ++ [localArray] })

/-- One turn of the backfill loop of `process`: when the operation at `index` is an
`IndexOffsetGlobalWithLayout` procedure, it takes the layout reference, and the `expect`
panics if there is none. Any other operation, or an index out of range, is left alone. -/
def backfillLayout (layoutRef : Option Variable) (operations : List Operation) (index : Nat) :
    Option (List Operation) :=
  match operations[index]? with
  | some (.procedure (.indexOffsetGlobalWithLayout proc)) =>
      layoutRef.map fun layout =>
        operations.set index (.procedure (.indexOffsetGlobalWithLayout { proc with layout }))
  | _ => some operations

/-- The procedure `process` makes of a pending global read: `ReadGlobalWithLayout` on the
layout reference (the `expect` panics without one), or a plain `ReadGlobal`. -/
def readOperation (layoutRef : Option Variable) :
    Variable × ReadingStrategy × Variable × Variable → Option Operation
  | (input, .outputLayout, «local», position) =>
      layoutRef.map fun output =>
        .procedure (.readGlobalWithLayout ⟨[input], output, [«local»], position⟩)
  | (input, .plain, «local», position) => some (.procedure (.readGlobal ⟨input, «local», position⟩))

/-- The `EarlyReturn` guard of `process`: on the first pending write, in a root scope. -/
def earlyReturn (s : Scope) : List Operation :=
  match s.writesGlobal.head? with
  | some (_, global, position) =>
      if s.depth = 0 then [.procedure (.earlyReturn ⟨global, position⟩)] else []
  | none => []

/-- The `Assign` from the global scalar that `process` makes of a pending scalar read. -/
def scalarReadOperation : Variable × Variable → Operation
  | («local», scalar) => .operator (.unary .assign ⟨scalar, «local»⟩)

/-- The `WriteGlobal` procedure that `process` makes of a pending write. -/
def writeOperation : Variable × Variable × Variable → Operation
  | (input, global, position) => .procedure (.writeGlobal ⟨input, global, position⟩)

/-- The scope `process` leaves behind: every deferred list drained, the declared locals
counted into `undeclared`. -/
def drained (s : Scope) : Scope :=
  { s with
    operations := []
    locals := []
    matrices := []
    slices := []
    readsGlobal := []
    indexOffsetWithOutputLayoutPosition := []
    writesGlobal := []
    readsScalar := []
    undeclared := asU16 (s.undeclared + asU16 s.locals.length) }

/-- `Scope::process` up to its final `optimize()`: the `ScopeProcessing` it builds, and the
scope it leaves. Each loop of the source is a fold that pushes onto the end of a list. -/
def processing (s : Scope) : Option (ScopeProcessing × Scope) := do
  let declared := s.slices.foldl (· ++ [·]) (s.matrices.foldl (· ++ [·]) s.locals)
  let registered ←
    s.indexOffsetWithOutputLayoutPosition.foldlM (backfillLayout s.layoutRef) s.operations
  let operations ← s.readsGlobal.foldlM
    (fun acc read => (readOperation s.layoutRef read).map (acc ++ [·])) s.earlyReturn
  let withScalars := s.readsScalar.foldl
    (fun acc read => (acc.1 ++ [scalarReadOperation read], acc.2 ++ [read.1]))
    (operations, declared)
  let operations := registered.foldl (· ++ [·]) withScalars.1
  let operations := s.writesGlobal.foldl (fun acc write => acc ++ [writeOperation write]) operations
  pure (⟨withScalars.2, operations⟩, s.drained)

/-- `Scope::process`, for the given `ScopeProcessing::optimize`. -/
def process (optimize : ScopeProcessing → ScopeProcessing) (s : Scope) :
    Option (ScopeProcessing × Scope) :=
  s.processing.map fun (p, s') => (optimize p, s')

end Scope

end CubeCL.IR
