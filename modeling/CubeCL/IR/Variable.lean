import Mathlib.Algebra.Group.Int
import Mathlib.Algebra.Group.Nat.Basic
import Mathlib.Data.Nat.Defs

/-!
# `CubeCL.IR.Variable`: the value grammar of the IR

The IR's `Elem`, `Item`, `ConstantScalarValue` and `Variable` (`cubecl-core/src/ir`), as
`scope.rs` builds them and the WGSL compiler (`compiler.rs`) reads them.

Machine integers keep the width the code gives them, as a `Nat` below `2 ^ w`:

* an `id` is a `u16` and a `depth` a `u8`;
* `ConstantScalarValue.uint` holds a `u64`, `ConstantScalarValue.int` an `i64`;
* `ConstantScalarValue.float` holds the `f64` as its IEEE-754 bit pattern, so that the
  type keeps decidable equality.

`u16` is the width the scope's counters wrap at. `asU16` is the cast `n as u16` that
`Scope::new_local_index` applies to `locals.len()`.

`Variable.vectorize` and `ConstantScalarValue.asUsize` live in `ir/variable.rs`, which is not
under `src/`. They are modelled from the spec (see their doc comments).
-/

set_option autoImplicit false

namespace CubeCL.IR

/-- The cast `n as u16`: the low 16 bits. -/
def asU16 (n : Nat) : Nat := n % 2 ^ 16

/-- `ir::FloatKind`. -/
inductive FloatKind where
  | f16
  | bf16
  | f32
  | f64
  deriving DecidableEq, Repr

/-- `ir::IntKind`. -/
inductive IntKind where
  | i32
  | i64
  deriving DecidableEq, Repr

/-- `ir::Elem`: the primitive element types. -/
inductive Elem where
  | float (kind : FloatKind)
  | int (kind : IntKind)
  | atomicInt (kind : IntKind)
  | uint
  | atomicUInt
  | bool
  deriving DecidableEq, Repr

/-- `ir::Item`: an element with a vectorization factor (a `u8`). -/
structure Item where
  elem : Elem
  vectorization : Nat
  deriving DecidableEq, Repr

/-- `Item::new`: the scalar item of `elem`. -/
def Item.new (elem : Elem) : Item := ⟨elem, 1⟩

/-- The cooperative-matrix descriptor `ir::Matrix` of `Variable::Matrix`. Its definition
is not under `src/`, and no modelled function reads it: it is kept as an opaque number. -/
structure Matrix where
  descriptor : Nat
  deriving DecidableEq, Repr

/-- `ir::ConstantScalarValue`: a literal with its element kind. -/
inductive ConstantScalarValue where
  | int (value : Int) (kind : IntKind)
  | float (bits : Nat) (kind : FloatKind)
  | uint (value : Nat)
  | bool (value : Bool)
  deriving DecidableEq, Repr

/-- `ConstantScalarValue::elem`. -/
def ConstantScalarValue.elem : ConstantScalarValue → Elem
  | .int _ kind => .int kind
  | .float _ kind => .float kind
  | .uint _ => .uint
  | .bool _ => .bool

/-- The saturating cast `v as usize` of the `f64` with bit pattern `bits`: zero for a
negative value, a NaN or a subnormal, `usize::MAX` past the range, the integer part
otherwise. -/
def f64BitsAsUsize (bits : Nat) : Nat :=
  let sign := bits / 2 ^ 63 % 2
  let exponent := bits / 2 ^ 52 % 2 ^ 11
  let significand := 2 ^ 52 + bits % 2 ^ 52
  if sign = 1 ∨ exponent = 0 then 0
  else if exponent = 2 ^ 11 - 1 then (if bits % 2 ^ 52 = 0 then 2 ^ 64 - 1 else 0)
  else if exponent ≥ 1075 then min (significand * 2 ^ (exponent - 1075)) (2 ^ 64 - 1)
  else significand / 2 ^ (1075 - exponent)

/-- Modelled from the spec: `ConstantScalarValue::as_usize` is not under `src/`. It is the
Rust cast `as usize` of the held value (64-bit `usize`); `range_expand` reads it on the
`UInt` constants its `u32` bounds become. -/
def ConstantScalarValue.asUsize : ConstantScalarValue → Nat
  | .int value _ => (value % 2 ^ 64).toNat
  | .float bits _ => f64BitsAsUsize bits
  | .uint value => value
  | .bool value => if value then 1 else 0

/-- `ir::Variable`: the tagged sum of value kinds. -/
inductive Variable where
  | globalInputArray (id : Nat) (item : Item)
  | globalScalar (id : Nat) (elem : Elem)
  | globalOutputArray (id : Nat) (item : Item)
  | «local» (id : Nat) (item : Item) (depth : Nat)
  | localScalar (id : Nat) (elem : Elem) (depth : Nat)
  | constantScalar (value : ConstantScalarValue)
  | sharedMemory (id : Nat) (item : Item) (length : Nat)
  | localArray (id : Nat) (item : Item) (depth : Nat) (length : Nat)
  | matrix (id : Nat) (mat : Matrix) (depth : Nat)
  | slice (id : Nat) (item : Item) (depth : Nat)
  | absolutePos
  | absolutePosX
  | absolutePosY
  | absolutePosZ
  | rank
  | unitPos
  | unitPosX
  | unitPosY
  | unitPosZ
  | cubePos
  | cubePosX
  | cubePosY
  | cubePosZ
  | cubeDim
  | cubeDimX
  | cubeDimY
  | cubeDimZ
  | cubeCount
  | cubeCountX
  | cubeCountY
  | cubeCountZ
  | subcubeDim
  deriving DecidableEq, Repr

/-- Modelled from the spec: `Item::vectorize` is not under `src/`. The spec's `vectorize`
"broadcasts a vectorization factor": the element is kept, the factor replaced. -/
def Item.vectorize (item : Item) (factor : Nat) : Item := { item with vectorization := factor }

/-- Modelled from the spec: `Variable::vectorize` is not under `src/`. Every variable that
carries an item gets the factor; ids, depths and lengths are kept, and scalars,
constants, matrices and built-ins are unchanged. -/
def Variable.vectorize (factor : Nat) : Variable → Variable
  | .globalInputArray id item => .globalInputArray id (item.vectorize factor)
  | .globalOutputArray id item => .globalOutputArray id (item.vectorize factor)
  | .local id item depth => .local id (item.vectorize factor) depth
  | .sharedMemory id item length => .sharedMemory id (item.vectorize factor) length
  | .localArray id item depth length => .localArray id (item.vectorize factor) depth length
  | .slice id item depth => .slice id (item.vectorize factor) depth
  | v => v

/-- Modelled from the spec: `Variable::index` is not under `src/`. The id of a variable
that has one, and `none` for a constant or a built-in. -/
def Variable.index? : Variable → Option Nat
  | .globalInputArray id _ => some id
  | .globalScalar id _ => some id
  | .globalOutputArray id _ => some id
  | .local id _ _ => some id
  | .localScalar id _ _ => some id
  | .sharedMemory id _ _ => some id
  | .localArray id _ _ _ => some id
  | .matrix id _ _ => some id
  | .slice id _ _ => some id
  | _ => none

/-- The id of a `Local`, and `none` for every other kind. -/
def Variable.localId? : Variable → Option Nat
  | .local id _ _ => some id
  | _ => none

/-- Vectorizing a variable keeps it a local exactly when it was one, with the same id. -/
@[simp] theorem Variable.localId?_vectorize (factor : Nat) (v : Variable) :
    (v.vectorize factor).localId? = v.localId? := by
  cases v <;> rfl

end CubeCL.IR
