import CubeCL.Wgsl.Base

/-!
# `CubeCL.Wgsl.Display`: the text of a WGSL variable

`impl Display for Variable` of `compiler/wgsl/base.rs` is how a variable appears in the
shader source: a name built from its kind, its depth and its id, a builtin, or the text of
a constant. The compiler converts a constant "in Rust and then render[s] the number": an
`I32` constant is cast `as i32`, a `UInt` constant `as u32`, and the result is written
with Rust's `{}` and a type suffix.

Rust's `{}` of an integer writes its decimal digits, after a `-` when it is negative; it is
`Nat.toDigits 10` here. `toDigits_eq` states it the way a reader reads a number: the digits
of `n / 10`, then the last digit of `n`. The `Display` of `ir::Elem` and Rust's `{}` of a
float are outside `src/`, so `Variable.fmt` takes them as `Formats`.
-/

set_option autoImplicit false

namespace CubeCL.Wgsl

/-- Modelled from the spec: what `Display for Variable` takes from outside `src/`. The
`Display` of `ir::Elem` names the scalar buffer of a `GlobalScalar`; `f32` and `f64` are
Rust's `{}` of the `f64` a float constant holds (given by its bit pattern), after the cast
`as f32` for `f32`. -/
structure Formats where
  cubeElem : IR.Elem → String
  f32 : Nat → String
  f64 : Nat → String

/-- Rust's `{}` of an unsigned integer: its decimal digits. -/
def displayNat (n : Nat) : String := (Nat.toDigits 10 n).asString

/-- Rust's `{}` of a signed integer: the digits of its magnitude, after a `-` when it is
negative. -/
def displayInt (v : Int) : String :=
  if v < 0 then "-" ++ displayNat v.natAbs else displayNat v.toNat

/-- The cast `v as i32` of an `i64`: the low 32 bits, read in two's complement. -/
def asI32 (v : Int) : Int :=
  if v % 2 ^ 32 < 2 ^ 31 then v % 2 ^ 32 else v % 2 ^ 32 - 2 ^ 32

/-- The cast `v as u32` of a `u64`: the low 32 bits. -/
def asU32 (v : Nat) : Nat := v % 2 ^ 32

/-- The `ConstantScalar` arm of `Display for Variable`; `none` for the `todo!` of the
half-precision floats. -/
def ConstantScalarValue.fmt (formats : Formats) : IR.ConstantScalarValue → Option String
  | .int val .i32 => some (displayInt (asI32 val) ++ "i")
  | .int val .i64 => some (displayInt val ++ "i")
  | .float _ .f16 | .float _ .bf16 => none
  | .float val .f32 => some (formats.f32 val ++ "f")
  | .float val .f64 => some (formats.f64 val ++ "f")
  | .uint val => some (displayNat (asU32 val) ++ "u")
  | .bool val => some (if val then "true" else "false")

/-- `impl Display for Variable`. -/
def Variable.fmt (formats : Formats) : Variable → Option String
  | .globalInputArray number _ => some ("input_" ++ displayNat number ++ "_global")
  | .localScalar index _ depth => some ("s_" ++ displayNat depth ++ "_" ++ displayNat index)
  | .local index _ depth => some ("l_" ++ displayNat depth ++ "_" ++ displayNat index)
  | .named name _ _ => some name
  | .slice index _ depth => some ("slice_" ++ displayNat depth ++ "_" ++ displayNat index)
  | .globalOutputArray number _ => some ("output_" ++ displayNat number ++ "_global")
  | .globalScalar number _ elem =>
      some ("scalars_" ++ formats.cubeElem elem ++ "[" ++ displayNat number ++ "]")
  | .constantScalar number _ => ConstantScalarValue.fmt formats number
  | .sharedMemory number _ _ => some ("shared_memory_" ++ displayNat number)
  | .localArray number _ depth _ => some ("a_" ++ displayNat depth ++ "_" ++ displayNat number)
  | .id => some "id"
  | .localInvocationIndex => some "local_idx"
  | .localInvocationIdX => some "local_invocation_id.x"
  | .localInvocationIdY => some "local_invocation_id.y"
  | .localInvocationIdZ => some "local_invocation_id.z"
  | .rank => some "rank"
  | .workgroupId => some "workgroup_id_no_axis"
  | .workgroupIdX => some "workgroup_id.x"
  | .workgroupIdY => some "workgroup_id.y"
  | .workgroupIdZ => some "workgroup_id.z"
  | .globalInvocationIdX => some "global_id.x"
  | .globalInvocationIdY => some "global_id.y"
  | .globalInvocationIdZ => some "global_id.z"
  | .workgroupSizeX => some "WORKGROUP_SIZE_X"
  | .workgroupSizeY => some "WORKGROUP_SIZE_Y"
  | .workgroupSizeZ => some "WORKGROUP_SIZE_Z"
  | .numWorkgroupsX => some "num_workgroups.x"
  | .numWorkgroupsY => some "num_workgroups.y"
  | .numWorkgroupsZ => some "num_workgroups.z"
  | .workgroupSize => some "workgroup_size_no_axis"
  | .numWorkgroups => some "num_workgroups_no_axis"
  | .subgroupSize => some "subgroup_size"

/-! ### Decimal digits -/

/-- `toDigits` runs `toDigitsCore` with one more unit of fuel than the number. -/
theorem toDigits_eq_core (n : Nat) : Nat.toDigits 10 n = Nat.toDigitsCore 10 (n + 1) n [] := rfl

/-- One turn of `toDigitsCore`: the last digit goes in front of what it is given, and the
rest of the number follows while it is not zero. -/
theorem toDigitsCore_succ (fuel n : Nat) (ds : List Char) :
    Nat.toDigitsCore 10 (fuel + 1) n ds =
      if n / 10 = 0 then Nat.digitChar (n % 10) :: ds
      else Nat.toDigitsCore 10 fuel (n / 10) (Nat.digitChar (n % 10) :: ds) := rfl

/-- `toDigitsCore` with enough fuel writes the digits of `n` in front of what it is
given. -/
theorem toDigitsCore_eq (n : Nat) :
    ∀ (fuel : Nat) (ds : List Char), n < fuel →
      Nat.toDigitsCore 10 fuel n ds = Nat.toDigits 10 n ++ ds := by
  induction n using Nat.strongRecOn with
  | ind n ih =>
      intro fuel ds hfuel
      obtain ⟨fuel, rfl⟩ : ∃ f, fuel = f + 1 := ⟨fuel - 1, by omega⟩
      rw [toDigits_eq_core, toDigitsCore_succ, toDigitsCore_succ]
      split_ifs with hdiv
      · rfl
      · have hlt : n / 10 < n := Nat.div_lt_self (by omega) (by decide)
        rw [ih _ hlt fuel _ (by omega), ih _ hlt n _ hlt, List.append_assoc]
        rfl

/-- The digits of `n`: those of `n / 10` when `n` has more than one, then its last. -/
theorem toDigits_eq (n : Nat) :
    Nat.toDigits 10 n =
      (if n < 10 then [] else Nat.toDigits 10 (n / 10)) ++ [Nat.digitChar (n % 10)] := by
  rw [toDigits_eq_core, toDigitsCore_succ]
  split_ifs with hdiv hlt hlt
  · rfl
  · omega
  · omega
  · exact toDigitsCore_eq _ n _ (Nat.div_lt_self (by omega) (by decide))

/-- A number has at least one digit. -/
theorem toDigits_ne_nil (n : Nat) : Nat.toDigits 10 n ≠ [] := by
  rw [toDigits_eq]
  exact List.append_ne_nil_of_right_ne_nil _ (List.cons_ne_nil _ _)

/-- The first digit of a number is `0` only for `0`. -/
theorem toDigits_head? (n : Nat) (h : (Nat.toDigits 10 n).head? = some '0') : n = 0 := by
  induction n using Nat.strongRecOn with
  | ind n ih =>
      rw [toDigits_eq] at h
      split_ifs at h with hlt
      · have hdigit : ∀ d < 10, Nat.digitChar d = '0' → d = 0 := by decide
        have := hdigit (n % 10) (Nat.mod_lt _ (by decide)) (by simpa using h)
        omega
      · obtain ⟨c, cs, hcs⟩ := List.exists_cons_of_ne_nil (toDigits_ne_nil (n / 10))
        rw [hcs] at h
        have := ih (n / 10) (Nat.div_lt_self (by omega) (by decide)) (by simpa [hcs] using h)
        omega

end CubeCL.Wgsl
