import CubeCL.Wgsl.Instruction
import CubeCL.IR.Scope

/-!
# `CubeCL.Wgsl.Compiler`: the WGSL compiler

`WgslCompiler` of `compiler/wgsl/compiler.rs`: it lowers a kernel's IR scope tree to WGSL
instructions, records the builtins and the shared memories and local arrays it meets,
and collects the helper functions the shader needs.

The compiler is a state machine over the `WgslCompiler` record: every function runs in
`CompileM`, state passing over the record, with `none` for a `panic!`. The fields of each
instruction are compiled in the order the source writes them, since compiling a variable
can record a builtin, a shared memory or a local array.

`compile_scope` processes the scope it is given and compiles the variables and operations
`process` hands back. A procedure is expanded into that same, drained, scope, which is
then compiled again. The procedures' `expand` functions are declared in files that are not
under `src/`, so they are a parameter `expand`; so is `ScopeProcessing::optimize`, which
`process` ends with. An expanded procedure is not a part of the scope being compiled, so
the recursion is bounded by `fuel`: one unit per nested `compile_scope`.

`ComputeShader`, `SharedMemory`, `LocalArray`, `Binding` and `KernelDefinition` are
declared in files that are not under `src/`; their fields are the ones this file reads
and writes.
-/

set_option autoImplicit false

namespace CubeCL.Wgsl

/-- `SharedMemory::new(index, item, size)`. -/
structure SharedMemory where
  index : Nat
  item : Item
  size : Nat
  deriving DecidableEq, Repr

/-- `LocalArray::new(index, item, depth, size)`. -/
structure LocalArray where
  index : Nat
  item : Item
  depth : Nat
  size : Nat
  deriving DecidableEq, Repr

/-- `WgslCompiler`, as `Default` builds it. -/
structure WgslCompiler where
  numInputs : Nat := 0
  numOutputs : Nat := 0
  localInvocationIndex : Bool := false
  localInvocationId : Bool := false
  globalInvocationId : Bool := false
  workgroupId : Bool := false
  rank : Bool := false
  id : Bool := false
  stride : Bool := false
  shape : Bool := false
  numWorkgroups : Bool := false
  workgroupIdNoAxis : Bool := false
  workgroupSizeNoAxis : Bool := false
  numWorkgroupNoAxis : Bool := false
  sharedMemories : List SharedMemory := []
  localArrays : List LocalArray := []
  deriving DecidableEq, Repr

/-- A compiler step: state passing over the compiler, `none` on a panic. -/
abbrev CompileM := StateT WgslCompiler Option

/-- `compile_elem`: the IR elements WGSL has; the others panic. -/
def compileElem : IR.Elem → Option Elem
  | .float .f16 | .float .bf16 | .float .f64 => none
  | .float .f32 => some .f32
  | .int .i32 => some .i32
  | .int .i64 => none
  | .uint => some .u32
  | .bool => some .bool
  | .atomicInt .i32 => some .atomicI32
  | .atomicInt .i64 => none
  | .atomicUInt => some .atomicU32

/-- `compile_item`: a vectorization of one to four; any other panics. -/
def compileItem (item : IR.Item) : Option Item := do
  let elem ← compileElem item.elem
  match item.vectorization with
  | 1 => pure (.scalar elem)
  | 2 => pure (.vec2 elem)
  | 3 => pure (.vec3 elem)
  | 4 => pure (.vec4 elem)
  | _ => none

/-- Record a builtin the shader reads. -/
def setFlag (set : WgslCompiler → WgslCompiler) (var : Variable) : CompileM Variable :=
  modifyGet fun compiler => (var, set compiler)

/-- `compile_variable`. A shared memory or a local array is recorded for declaration the
first time its id is met: an entry with the same `index` is enough to skip it. -/
def compileVariable : IR.Variable → CompileM Variable
  | .globalInputArray id item => return .globalInputArray id (← compileItem item)
  | .globalScalar id elem => return .globalScalar id (← compileElem elem) elem
  | .local id item depth => return .local id (← compileItem item) depth
  | .slice id item depth => return .slice id (← compileItem item) depth
  | .localScalar id elem depth => return .localScalar id (← compileElem elem) depth
  | .globalOutputArray id item => return .globalOutputArray id (← compileItem item)
  | .constantScalar value => return .constantScalar value (← compileElem value.elem)
  | .sharedMemory id item length => do
      let item ← compileItem item
      modify fun compiler =>
        if compiler.sharedMemories.any (·.index == id) then compiler
        else { compiler with sharedMemories := compiler.sharedMemories ++ [⟨id, item, length⟩] }
      return .sharedMemory id item length
  | .localArray id item depth length => do
      let item ← compileItem item
      modify fun compiler =>
        if compiler.localArrays.any (·.index == id) then compiler
        else { compiler with localArrays := compiler.localArrays ++ [⟨id, item, depth, length⟩] }
      return .localArray id item depth length
  | .absolutePos => setFlag (fun c => { c with id := true }) .id
  | .rank => setFlag (fun c => { c with rank := true }) .rank
  | .unitPos => setFlag (fun c => { c with localInvocationIndex := true }) .localInvocationIndex
  | .unitPosX => setFlag (fun c => { c with localInvocationId := true }) .localInvocationIdX
  | .unitPosY => setFlag (fun c => { c with localInvocationId := true }) .localInvocationIdY
  | .unitPosZ => setFlag (fun c => { c with localInvocationId := true }) .localInvocationIdZ
  | .cubePosX => setFlag (fun c => { c with workgroupId := true }) .workgroupIdX
  | .cubePosY => setFlag (fun c => { c with workgroupId := true }) .workgroupIdY
  | .cubePosZ => setFlag (fun c => { c with workgroupId := true }) .workgroupIdZ
  | .absolutePosX => setFlag (fun c => { c with globalInvocationId := true }) .globalInvocationIdX
  | .absolutePosY => setFlag (fun c => { c with globalInvocationId := true }) .globalInvocationIdY
  | .absolutePosZ => setFlag (fun c => { c with globalInvocationId := true }) .globalInvocationIdZ
  | .cubeDimX => return .workgroupSizeX
  | .cubeDimY => return .workgroupSizeY
  | .cubeDimZ => return .workgroupSizeZ
  | .cubeCountX => setFlag (fun c => { c with numWorkgroups := true }) .numWorkgroupsX
  | .cubeCountY => setFlag (fun c => { c with numWorkgroups := true }) .numWorkgroupsY
  | .cubeCountZ => setFlag (fun c => { c with numWorkgroups := true }) .numWorkgroupsZ
  | .cubePos => setFlag (fun c => { c with workgroupIdNoAxis := true }) .workgroupId
  | .cubeDim => setFlag (fun c => { c with workgroupSizeNoAxis := true }) .workgroupSize
  | .cubeCount => setFlag (fun c => { c with numWorkgroupNoAxis := true }) .numWorkgroups
  | .subcubeDim => return .subgroupSize
  | .matrix .. => failure

/-- The WGSL instruction of an IR binary operator: the unchecked index operators become the
checked ones, every other keeps its name. -/
def BinaryKind.ofIR : IR.BinaryKind → BinaryKind
  | .max => .max | .min => .min | .add => .add | .index => .index
  | .uncheckedIndex => .index | .modulo => .modulo | .sub => .sub | .mul => .mul
  | .div => .div | .powf => .powf | .equal => .equal | .lower => .lower
  | .greater => .greater | .lowerEqual => .lowerEqual | .greaterEqual => .greaterEqual
  | .notEqual => .notEqual | .indexAssign => .indexAssign
  | .uncheckedIndexAssign => .indexAssign | .and => .and | .or => .or
  | .bitwiseAnd => .bitwiseAnd | .bitwiseXor => .bitwiseXor | .shiftLeft => .shiftLeft
  | .shiftRight => .shiftRight | .remainder => .remainder | .atomicSwap => .atomicSwap
  | .atomicAdd => .atomicAdd | .atomicSub => .atomicSub | .atomicMax => .atomicMax
  | .atomicMin => .atomicMin | .atomicAnd => .atomicAnd | .atomicOr => .atomicOr
  | .atomicXor => .atomicXor

/-- The WGSL instruction of an IR unary operator, of the same name. -/
def UnaryKind.ofIR : IR.UnaryKind → UnaryKind
  | .abs => .abs | .exp => .exp | .log => .log | .log1p => .log1p | .cos => .cos
  | .sin => .sin | .tanh => .tanh | .sqrt => .sqrt | .floor => .floor | .ceil => .ceil
  | .erf => .erf | .recip => .recip | .assign => .assign | .not => .not
  | .atomicLoad => .atomicLoad | .atomicStore => .atomicStore | .bitcast => .bitcast

/-- `compile_instruction`. -/
def compileInstruction : IR.Operator → CompileM Instruction
  | .binary kind op => do
      let lhs ← compileVariable op.lhs
      let rhs ← compileVariable op.rhs
      let out ← compileVariable op.out
      return .binary (.ofIR kind) lhs rhs out
  | .unary kind op => do
      let input ← compileVariable op.input
      let out ← compileVariable op.out
      return .unary (.ofIR kind) input out
  | .fma op => do
      let a ← compileVariable op.a
      let b ← compileVariable op.b
      let c ← compileVariable op.c
      let out ← compileVariable op.out
      return .fma a b c out
  | .clamp op => do
      let input ← compileVariable op.input
      let minValue ← compileVariable op.minValue
      let maxValue ← compileVariable op.maxValue
      let out ← compileVariable op.out
      return .clamp input minValue maxValue out
  | .slice op => do
      let input ← compileVariable op.input
      let start ← compileVariable op.start
      let «end» ← compileVariable op.end
      let out ← compileVariable op.out
      return .slice input start «end» out
  | .atomicCompareAndSwap op => do
      let lhs ← compileVariable op.input
      let cmp ← compileVariable op.cmp
      let value ← compileVariable op.val
      let out ← compileVariable op.out
      return .atomicCompareExchangeWeak lhs cmp value out

/-- The binding position of a global array in the `info` buffer: inputs first, then
outputs. Any other variable panics. -/
def metadataPosition (numInputs : Nat) : IR.Variable → Option Nat
  | .globalInputArray id _ => some id
  | .globalOutputArray id _ => some (numInputs + id)
  | _ => none

/-- `compile_metadata`. `Length` compiles its `out` before its `var`. -/
def compileMetadata : IR.Metadata → CompileM Instruction
  | .stride dim var out => do
      modify fun c => { c with stride := true }
      let position ← metadataPosition (← get).numInputs var
      let dim ← compileVariable dim
      let out ← compileVariable out
      return .stride dim position out
  | .shape dim var out => do
      modify fun c => { c with shape := true }
      let position ← metadataPosition (← get).numInputs var
      let dim ← compileVariable dim
      let out ← compileVariable out
      return .shape dim position out
  | .length var out => do
      let out ← compileVariable out
      let var ← compileVariable var
      return .length var out

/-- `compile_subgroup`. -/
def compileSubgroup : IR.Subcube → CompileM Instruction
  | .elect out => return .subgroup (.elect (← compileVariable out))
  | .reduce kind op => do
      let input ← compileVariable op.input
      let out ← compileVariable op.out
      return .subgroup (.reduce kind input out)
  | .broadcast op => do
      let lhs ← compileVariable op.lhs
      let rhs ← compileVariable op.rhs
      let out ← compileVariable op.out
      return .subgroup (.broadcast lhs rhs out)

/-- `compile_synchronization`. -/
def compileSynchronization : IR.Synchronization → Instruction
  | .syncUnits => .workgroupBarrier
  | .syncStorage => .storageBarrier

section Scope

variable (optimize : IR.ScopeProcessing → IR.ScopeProcessing)
  (expand : IR.Procedure → IR.Scope → IR.Scope)

/-- `compile_branch`, with `compileScope` compiling a branch's own scope. -/
def compileBranch (compileScope : IR.Scope → CompileM (List Instruction × IR.Scope))
    (instructions : List Instruction) : IR.Branch → CompileM (List Instruction)
  | .if cond scope => do
      let cond ← compileVariable cond
      let (body, _) ← compileScope scope
      return instructions ++ [.if cond body]
  | .ifElse cond scopeIf scopeElse => do
      let cond ← compileVariable cond
      let (bodyIf, _) ← compileScope scopeIf
      let (bodyElse, _) ← compileScope scopeElse
      return instructions ++ [.ifElse cond bodyIf bodyElse]
  | .return => return instructions ++ [.return]
  | .break => return instructions ++ [.break]
  | .rangeLoop i start «end» step scope => do
      let i ← compileVariable i
      let start ← compileVariable start
      let «end» ← compileVariable «end»
      let step ← step.mapM compileVariable
      let (body, _) ← compileScope scope
      return instructions ++ [.rangeLoop i start «end» step body]
  | .loop scope => do
      let (body, _) ← compileScope scope
      return instructions ++ [.loop body]

/-- `compile_procedure`: expand the procedure into the scope being compiled, then compile
that scope again and append what it gives. -/
def compileProcedure (compileScope : IR.Scope → CompileM (List Instruction × IR.Scope))
    (instructions : List Instruction) (proc : IR.Procedure) (scope : IR.Scope) :
    CompileM (List Instruction × IR.Scope) := do
  let (compiled, scope) ← compileScope (expand proc scope)
  return (instructions ++ compiled, scope)

/-- `compile_operation`: append the instructions of one operation. -/
def compileOperation (compileScope : IR.Scope → CompileM (List Instruction × IR.Scope))
    (acc : List Instruction × IR.Scope) : IR.Operation → CompileM (List Instruction × IR.Scope)
  | .operator op => return (acc.1 ++ [← compileInstruction op], acc.2)
  | .procedure proc => compileProcedure expand compileScope acc.1 proc acc.2
  | .metadata op => return (acc.1 ++ [← compileMetadata op], acc.2)
  | .branch branch => return (← compileBranch compileScope acc.1 branch, acc.2)
  | .synchronization sync => return (acc.1 ++ [compileSynchronization sync], acc.2)
  | .subcube op => return (acc.1 ++ [← compileSubgroup op], acc.2)
  | .coopMma _ => failure

/-- Slices are not declared. -/
def isSliceVariable : IR.Variable → Bool
  | .slice .. => true
  | _ => false

/-- The declarations `compile_scope` makes of the variables `process` hands back: every one
but the slices. -/
def compileDeclarations (vars : List IR.Variable) : CompileM (List Instruction) :=
  (vars.filter fun var => !isSliceVariable var).mapM fun var =>
    return .declareVariable (← compileVariable var)

/-- `compile_scope`, with at most `fuel` nested scopes: process the scope, declare its
variables, compile its operations in order. It also returns the scope as it leaves it. -/
def compileScope : Nat → IR.Scope → CompileM (List Instruction × IR.Scope)
  | 0, _ => failure
  | fuel + 1, scope => do
      let (processing, scope) ← StateT.lift (scope.process optimize)
      let declarations ← compileDeclarations processing.variables
      processing.operations.foldlM (compileOperation expand (compileScope fuel))
        (declarations, scope)

/-- `Location` of a binding: global storage, or workgroup memory (`Cube`). -/
inductive Location where
  | storage
  | workgroup
  deriving DecidableEq, Repr

/-- `Visibility` of a binding. -/
inductive Visibility where
  | read
  | readWrite
  deriving DecidableEq, Repr

/-- `wgsl::Binding`. -/
structure Binding where
  visibility : Visibility
  location : Location
  item : Item
  size : Option Nat
  deriving DecidableEq, Repr

/-- `ir::Binding` with `Location::Cube` as `workgroup`. -/
structure IRBinding where
  location : Location
  visibility : Visibility
  item : IR.Item
  size : Option Nat
  deriving DecidableEq, Repr

/-- `compile_binding`. -/
def compileBinding (value : IRBinding) : Option Binding := do
  return ⟨value.visibility, value.location, ← compileItem value.item, value.size⟩

/-- `CubeDim`: the workgroup size. -/
structure CubeDim where
  x : Nat
  y : Nat
  z : Nat
  deriving DecidableEq, Repr

/-- `KernelDefinition`, with the fields `compile_shader` reads. -/
structure KernelDefinition where
  inputs : List IRBinding
  outputs : List IRBinding
  named : List (String × IRBinding)
  cubeDim : CubeDim
  body : IR.Scope

/-- `wgsl::Body`. -/
structure Body where
  instructions : List Instruction
  rank : Bool
  id : Bool
  stride : Bool
  shape : Bool

/-- `ComputeShader`, as `compile_shader` fills it. -/
structure ComputeShader where
  inputs : List Binding
  outputs : List Binding
  named : List (String × Binding)
  sharedMemories : List SharedMemory
  localArrays : List LocalArray
  workgroupSize : CubeDim
  globalInvocationId : Bool
  localInvocationIndex : Bool
  localInvocationId : Bool
  numWorkgroups : Bool
  workgroupId : Bool
  body : Body
  extensions : List Extension
  numWorkgroupsNoAxis : Bool
  workgroupIdNoAxis : Bool
  workgroupSizeNoAxis : Bool

/-- `compile_shader`: compile the body, collect its helpers, and read the flags and the
declarations the compilation recorded. `macos` is the configuration of the `Tanh` scan. -/
def compileShader (macos : Bool) (fuel : Nat) (value : KernelDefinition) :
    CompileM ComputeShader := do
  modify fun c => { c with numInputs := value.inputs.length, numOutputs := value.outputs.length }
  let (instructions, _) ← compileScope optimize expand fuel value.body
  let extensions := registerExtensions macos instructions
  let c ← get
  let inputs ← StateT.lift (value.inputs.mapM compileBinding)
  let outputs ← StateT.lift (value.outputs.mapM compileBinding)
  let named ← StateT.lift (value.named.mapM fun (name, binding) =>
    (compileBinding binding).map fun binding => (name, binding))
  return {
    inputs, outputs, named
    sharedMemories := c.sharedMemories
    localArrays := c.localArrays
    workgroupSize := value.cubeDim
    globalInvocationId := c.globalInvocationId || c.id
    localInvocationIndex := c.localInvocationIndex
    localInvocationId := c.localInvocationId
    numWorkgroups := c.id || c.numWorkgroups || c.numWorkgroupNoAxis || c.workgroupIdNoAxis
    workgroupId := c.workgroupId || c.workgroupIdNoAxis
    body := ⟨instructions, true, c.id, c.stride, c.shape⟩
    extensions
    numWorkgroupsNoAxis := c.numWorkgroupNoAxis
    workgroupIdNoAxis := c.workgroupIdNoAxis
    workgroupSizeNoAxis := c.workgroupSizeNoAxis }

/-- `Compiler::compile`: `compile_shader` on a default compiler. -/
def compile (macos : Bool) (fuel : Nat) (shader : KernelDefinition) : Option ComputeShader :=
  (compileShader optimize expand macos fuel shader).run' {}

variable {optimize expand}

/-- One unit of fuel: when `process` gives `processing`, `compile_scope` declares its
variables and compiles its operations from the scope `process` leaves. -/
theorem compileScope_of_process (fuel : Nat) {scope scope' : IR.Scope}
    {processing : IR.ScopeProcessing} (h : scope.process optimize = some (processing, scope')) :
    compileScope optimize expand (fuel + 1) scope =
      compileDeclarations processing.variables >>= fun declarations =>
        processing.operations.foldlM (compileOperation expand (compileScope optimize expand fuel))
          (declarations, scope') := by
  rw [compileScope, h]
  rfl

end Scope

end CubeCL.Wgsl
