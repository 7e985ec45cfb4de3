import CubeCL.Wgsl.Base
import CubeCL.IR.Operation

/-!
# `CubeCL.Wgsl.Instruction`: WGSL instructions and their helper functions

The `Instruction` sum of `compiler/wgsl/instructions.rs`, and `register_extensions` of
`compiler/wgsl/compiler.rs`, which collects the helper functions (`wgsl::Extension`) that
the rendered shader calls and WGSL does not have.

The instructions over the same operands are one constructor with their kind as a
parameter: 31 over `lhs`, `rhs`, `out` (`BinaryKind`) and 17 over `input`, `out`
(`UnaryKind`). The four compound instructions `If`, `IfElse`, `RangeLoop` and `Loop` own
their instruction lists, so `Instruction` is a nested inductive.

The `Extension` sum is declared in a file that is not under `src/`; its five variants are
the ones `register_extensions` builds, each with the item it is built with. The scan of
`Tanh` is compiled only for macOS (`#[cfg(target_os = "macos")]`); `macos` is that
configuration.
-/

set_option autoImplicit false

namespace CubeCL.Wgsl

/-- The instructions over `lhs`, `rhs`, `out`. -/
inductive BinaryKind where
  | max | min | add | index | indexAssign | modulo | sub | mul | div | powf
  | equal | lower | greater | lowerEqual | greaterEqual | notEqual
  | and | or | bitwiseAnd | bitwiseXor | shiftLeft | shiftRight | remainder
  | atomicSwap | atomicAdd | atomicSub | atomicMax | atomicMin | atomicAnd | atomicOr
  | atomicXor
  deriving DecidableEq, Repr

/-- The instructions over `input`, `out`. -/
inductive UnaryKind where
  | assign | abs | exp | log | log1p | cos | sin | tanh | sqrt | erf | recip | not
  | floor | ceil | bitcast | atomicLoad | atomicStore
  deriving DecidableEq, Repr

/-- `wgsl::Subgroup`: election, the reductions over `input`, `out`, and broadcast. -/
inductive Subgroup where
  | elect (out : Variable)
  | reduce (kind : IR.SubcubeKind) (input out : Variable)
  | broadcast (lhs rhs out : Variable)
  deriving DecidableEq, Repr

/-- `wgsl::Instruction`. -/
inductive Instruction where
  | declareVariable (var : Variable)
  | binary (kind : BinaryKind) (lhs rhs out : Variable)
  | unary (kind : UnaryKind) (input out : Variable)
  | fma (a b c out : Variable)
  | clamp (input minValue maxValue out : Variable)
  | slice (input start «end» out : Variable)
  | atomicCompareExchangeWeak (lhs cmp value out : Variable)
  | stride (dim : Variable) (position : Nat) (out : Variable)
  | shape (dim : Variable) (position : Nat) (out : Variable)
  | length (var out : Variable)
  | «if» (cond : Variable) (instructions : List Instruction)
  | ifElse (cond : Variable) (instructionsIf instructionsElse : List Instruction)
  | rangeLoop (i start «end» : Variable) (step : Option Variable)
      (instructions : List Instruction)
  | «loop» (instructions : List Instruction)
  | «return»
  | «break»
  | workgroupBarrier
  | storageBarrier
  | subgroup (op : Subgroup)

/-- `wgsl::Extension`: a helper function the shader text calls, at one item. -/
inductive Extension where
  | powfScalar (item : Item)
  | powfPrimitive (item : Item)
  | powf (item : Item)
  | erf (item : Item)
  | safeTanh (item : Item)
  deriving DecidableEq, Repr

/-- The closure `register_extension`: push the extension unless it is already listed. -/
def registerExtension (extensions : List Extension) (extension : Extension) :
    List Extension :=
  if extensions.contains extension then extensions else extensions ++ [extension]

mutual

/-- One turn of the scan of `register_extensions`: `Powf`, `Erf` and, on macOS, `Tanh`
register their helpers; an `If` registers, one by one, what the scan of its own
instructions collects; every other instruction registers nothing. -/
def registerInstruction (macos : Bool) (extensions : List Extension) :
    Instruction → List Extension
  | .binary .powf _ rhs out =>
      let extensions := registerExtension extensions (.powfPrimitive out.item)
      if rhs.isAlwaysScalar then registerExtension extensions (.powfScalar out.item)
      else registerExtension extensions (.powf out.item)
  | .unary .erf input _ => registerExtension extensions (.erf input.item)
  | .unary .tanh input _ =>
      if macos then registerExtension extensions (.safeTanh input.item) else extensions
  | .if _ instructions =>
      (registerExtensionsFrom macos [] instructions).foldl registerExtension extensions
  | _ => extensions

/-- The scan of `register_extensions` over a list, from the extensions found so far. -/
def registerExtensionsFrom (macos : Bool) (extensions : List Extension) :
    List Instruction → List Extension
  | [] => extensions
  | instruction :: instructions =>
      registerExtensionsFrom macos (registerInstruction macos extensions instruction)
        instructions

end

/-- `register_extensions`. -/
def registerExtensions (macos : Bool) (instructions : List Instruction) : List Extension :=
  registerExtensionsFrom macos [] instructions

end CubeCL.Wgsl
