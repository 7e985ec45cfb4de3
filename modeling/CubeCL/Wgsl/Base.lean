import CubeCL.IR.Variable

/-!
# `CubeCL.Wgsl.Base`: the WGSL value grammar

The `Elem`, `Item` and `Variable` of `cubecl-wgpu/src/compiler/wgsl/base.rs`, and the two
queries the compiler and the extension scan read: `Variable::item` and
`Variable::is_always_scalar`.

A WGSL variable keeps the ids and depths of the IR variable it was compiled from, and a
constant keeps the IR's `ConstantScalarValue` next to the WGSL element it is rendered at.
-/

set_option autoImplicit false

namespace CubeCL.Wgsl

/-- `wgsl::Elem`. -/
inductive Elem where
  | f32
  | i32
  | atomicI32
  | u32
  | atomicU32
  | bool
  deriving DecidableEq, Repr

/-- `wgsl::Item`: a scalar or a vector of two to four elements. -/
inductive Item where
  | vec4 (elem : Elem)
  | vec3 (elem : Elem)
  | vec2 (elem : Elem)
  | scalar (elem : Elem)
  deriving DecidableEq, Repr

/-- `Item::elem`. -/
def Item.elem : Item → Elem
  | .vec4 e | .vec3 e | .vec2 e | .scalar e => e

/-- `Item::vectorization_factor`. -/
def Item.vectorizationFactor : Item → Nat
  | .vec4 _ => 4
  | .vec3 _ => 3
  | .vec2 _ => 2
  | .scalar _ => 1

/-- `wgsl::Variable`. -/
inductive Variable where
  | subgroupSize
  | globalInputArray (id : Nat) (item : Item)
  | globalOutputArray (id : Nat) (item : Item)
  | globalScalar (id : Nat) (elem : Elem) (cubeElem : IR.Elem)
  | constantScalar (value : IR.ConstantScalarValue) (elem : Elem)
  | «local» (id : Nat) (item : Item) (depth : Nat)
  | named (name : String) (item : Item) (isArray : Bool)
  | slice (id : Nat) (item : Item) (depth : Nat)
  | localScalar (id : Nat) (elem : Elem) (depth : Nat)
  | sharedMemory (id : Nat) (item : Item) (length : Nat)
  | localArray (id : Nat) (item : Item) (depth : Nat) (length : Nat)
  | id
  | localInvocationIndex
  | localInvocationIdX
  | localInvocationIdY
  | localInvocationIdZ
  | rank
  | workgroupId
  | workgroupIdX
  | workgroupIdY
  | workgroupIdZ
  | globalInvocationIdX
  | globalInvocationIdY
  | globalInvocationIdZ
  | workgroupSize
  | workgroupSizeX
  | workgroupSizeY
  | workgroupSizeZ
  | numWorkgroups
  | numWorkgroupsX
  | numWorkgroupsY
  | numWorkgroupsZ
  deriving DecidableEq, Repr

namespace Variable

/-- `Variable::is_always_scalar`: the variable holds one element whatever the
vectorization. -/
def isAlwaysScalar : Variable → Bool
  | .globalScalar .. | .constantScalar .. | .localScalar .. => true
  | .id | .localInvocationIndex | .localInvocationIdX | .localInvocationIdY
  | .localInvocationIdZ | .rank => true
  | .globalInputArray .. | .globalOutputArray .. | .sharedMemory .. | .localArray ..
  | .local .. | .named .. | .slice .. => false
  | .workgroupIdX | .workgroupIdY | .workgroupIdZ => true
  | .globalInvocationIdX | .globalInvocationIdY | .globalInvocationIdZ => true
  | .workgroupSizeX | .workgroupSizeY | .workgroupSizeZ => true
  | .numWorkgroupsX | .numWorkgroupsY | .numWorkgroupsZ => true
  | .workgroupId | .workgroupSize | .numWorkgroups | .subgroupSize => true

/-- `Variable::item`. -/
def item : Variable → Item
  | .globalInputArray _ e | .globalOutputArray _ e | .sharedMemory _ e _
  | .localArray _ e _ _ => e
  | .local _ item _ | .slice _ item _ | .named _ item _ => item
  | .constantScalar _ e | .globalScalar _ e _ => .scalar e
  | .localScalar _ elem _ => .scalar elem
  | .id | .localInvocationIndex | .localInvocationIdX | .localInvocationIdY
  | .localInvocationIdZ | .rank => .scalar .u32
  | .workgroupId | .workgroupIdX | .workgroupIdY | .workgroupIdZ => .scalar .u32
  | .globalInvocationIdX | .globalInvocationIdY | .globalInvocationIdZ => .scalar .u32
  | .workgroupSize | .workgroupSizeX | .workgroupSizeY | .workgroupSizeZ => .scalar .u32
  | .numWorkgroups | .numWorkgroupsX | .numWorkgroupsY | .numWorkgroupsZ => .scalar .u32
  | .subgroupSize => .scalar .u32

end Variable

end CubeCL.Wgsl
