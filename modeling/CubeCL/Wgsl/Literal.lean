import CubeCL.Wgsl.Display
import CubeCL.Wgsl.Compiler

/-!
# `CubeCL.Wgsl.Literal`: the value of a rendered constant

What the text `Display` renders for a constant means in WGSL. The grammar is the WGSL
specification's, which is not under `src/`; the definitions below follow its rules for the
literals a scalar constant can become:

* a `decimal_int_literal` is `0` or a nonzero digit followed by digits, with a suffix `i`
  for `i32` or `u` for `u32`; a value out of its type's range is a shader-creation error;
* a literal has no sign: `-` is the unary negation, which applies to `i32` and not to
  `u32`. So `-2147483648i` negates the literal `2147483648i`, which does not fit `i32`;
* `true` and `false` are the `bool` literals.

`constant_literal_value` reads the rendered text of every lowered `I32`, `UInt` and `Bool`
constant in range back through these rules. Every one of them means its value, except
`i32::MIN`, the one `I32` constant whose text is not a valid WGSL expression.
-/

set_option autoImplicit false

namespace CubeCL.Wgsl

/-- Modelled from the WGSL specification: a value of the scalar types a constant is lowered
to. -/
inductive WgslValue where
  | i32 (value : Int)
  | u32 (value : Nat)
  | bool (value : Bool)
  deriving DecidableEq, Repr

/-- Modelled from the WGSL specification: the value of a decimal digit. -/
def digitValue? (c : Char) : Option Nat :=
  if c.isDigit then some (c.toNat - '0'.toNat) else none

/-- Modelled from the WGSL specification: the value of the digits of a
`decimal_int_literal`: `0`, or a nonzero digit followed by digits. -/
def decimalValue? : List Char → Option Nat
  | [] => none
  | first :: rest =>
      if first = '0' ∧ rest ≠ [] then none
      else (first :: rest).foldlM (fun acc d => (digitValue? d).map (acc * 10 + ·)) 0

/-- Modelled from the WGSL specification: a suffixed `decimal_int_literal`, an `i32` for the
suffix `i` and a `u32` for `u`, and `none` (a shader-creation error) when the value does not
fit the type. -/
def intLiteral? (text : List Char) : Option WgslValue :=
  match text.getLast? with
  | some 'i' => (decimalValue? text.dropLast).bind fun v =>
      if v < 2 ^ 31 then some (.i32 v) else none
  | some 'u' => (decimalValue? text.dropLast).bind fun v =>
      if v < 2 ^ 32 then some (.u32 v) else none
  | _ => none

/-- Modelled from the WGSL specification: the value of a scalar literal expression, `true`,
`false`, a suffixed integer literal, or the unary negation of one, which is defined on
`i32` only. -/
def literalExpression? (text : List Char) : Option WgslValue :=
  if text = ['t', 'r', 'u', 'e'] then some (.bool true)
  else if text = ['f', 'a', 'l', 's', 'e'] then some (.bool false)
  else if text.head? = some '-' then
    (intLiteral? text.tail).bind fun
      | .i32 v => some (.i32 (-v))
      | _ => none
  else intLiteral? text

/-! ### Reading digits back -/

/-- Each digit Rust writes reads back as its value. -/
theorem digitValue?_digitChar {d : Nat} (h : d < 10) : digitValue? (Nat.digitChar d) = some d := by
  have hall : ∀ d < 10, digitValue? (Nat.digitChar d) = some d := by decide
  exact hall d h

/-- Every character of a number's digits is a decimal digit. -/
theorem isDigit_of_mem_toDigits (n : Nat) : ∀ c ∈ Nat.toDigits 10 n, c.isDigit := by
  induction n using Nat.strongRecOn with
  | ind n ih =>
      have hdigit : ∀ d < 10, (Nat.digitChar d).isDigit := by decide
      intro c hc
      rw [toDigits_eq, List.mem_append, List.mem_singleton] at hc
      rcases hc with hc | rfl
      · split_ifs at hc with hlt
        · exact absurd hc (List.not_mem_nil c)
        · exact ih (n / 10) (Nat.div_lt_self (by omega) (by decide)) c hc
      · exact hdigit _ (Nat.mod_lt n (by decide))

/-- The digits of a number, read left to right, give the number. -/
theorem foldlM_toDigits (n : Nat) :
    (Nat.toDigits 10 n).foldlM (fun acc d => (digitValue? d).map (acc * 10 + ·)) 0 = some n := by
  induction n using Nat.strongRecOn with
  | ind n ih =>
      have hlast := digitValue?_digitChar (Nat.mod_lt n (show 10 > 0 by decide))
      rw [toDigits_eq, List.foldlM_append]
      split_ifs with hlt
      · rw [Nat.mod_eq_of_lt hlt] at hlast ⊢
        simp [hlast]
      · rw [ih _ (Nat.div_lt_self (by omega) (by decide))]
        simp only [Option.bind_eq_bind, Option.some_bind, List.foldlM_cons, List.foldlM_nil,
          hlast, Option.map_some']
        congr 1
        omega

/-- The digits of a number are a `decimal_int_literal` of its value: a leading `0` only
stands alone. -/
theorem decimalValue?_toDigits (n : Nat) : decimalValue? (Nat.toDigits 10 n) = some n := by
  obtain ⟨first, rest, h⟩ := List.exists_cons_of_ne_nil (toDigits_ne_nil n)
  have hfold := foldlM_toDigits n
  rw [h] at hfold ⊢
  rw [decimalValue?, if_neg, hfold]
  rintro ⟨rfl, hrest⟩
  obtain rfl := toDigits_head? n (by rw [h]; rfl)
  exact hrest (List.cons.inj h.symm).2

/-- An `i`-suffixed number is the `i32` of its value when it fits. -/
theorem intLiteral?_i32 (n : Nat) :
    intLiteral? (Nat.toDigits 10 n ++ ['i']) = if n < 2 ^ 31 then some (.i32 n) else none := by
  simp only [intLiteral?, List.getLast?_concat, List.dropLast_concat, decimalValue?_toDigits,
    Option.some_bind]

/-- A `u`-suffixed number is the `u32` of its value when it fits. -/
theorem intLiteral?_u32 (n : Nat) :
    intLiteral? (Nat.toDigits 10 n ++ ['u']) = if n < 2 ^ 32 then some (.u32 n) else none := by
  simp only [intLiteral?, List.getLast?_concat, List.dropLast_concat, decimalValue?_toDigits,
    Option.some_bind]

/-- A suffixed number is neither a `bool` literal nor a negation. -/
theorem literalExpression?_toDigits (n : Nat) {suffix : Char} (hsuffix : suffix ≠ 'e') :
    literalExpression? (Nat.toDigits 10 n ++ [suffix]) = intLiteral? (Nat.toDigits 10 n ++ [suffix]) := by
  have hlast : ∀ word : List Char, word.getLast? = some 'e' →
      Nat.toDigits 10 n ++ [suffix] ≠ word := fun word hword heq => by
    rw [← heq, List.getLast?_concat] at hword
    exact hsuffix (Option.some.inj hword)
  obtain ⟨first, rest, h⟩ := List.exists_cons_of_ne_nil (toDigits_ne_nil n)
  have hfirst : first ≠ '-' := fun heq => by
    have := isDigit_of_mem_toDigits n first (by rw [h]; exact List.mem_cons_self _ _)
    rw [heq] at this
    exact absurd this (by decide)
  rw [literalExpression?, if_neg (hlast ['t', 'r', 'u', 'e'] rfl),
    if_neg (hlast ['f', 'a', 'l', 's', 'e'] rfl), if_neg]
  rw [h, List.cons_append, List.head?_cons]
  exact fun heq => hfirst (Option.some.inj heq)

/-- A `-` before a suffixed number negates the literal, when it is an `i32`. -/
theorem literalExpression?_neg (text : List Char) :
    literalExpression? ('-' :: text) = (intLiteral? text).bind fun
      | .i32 v => some (.i32 (-v))
      | _ => none := by
  rw [literalExpression?, if_neg fun h => absurd (List.cons.inj h).1 (by decide),
    if_neg fun h => absurd (List.cons.inj h).1 (by decide),
    if_pos (show ('-' :: text).head? = some '-' from rfl)]
  rfl

/-! ### The rendered constants -/

section Constants

variable (formats : Formats) (c : WgslCompiler)

/-- The text of an `i32` in range: its digits after a `-` when it is negative, and the
suffix `i`. -/
theorem fmt_i32 {v : Int} (hlo : -2 ^ 31 ≤ v) (hhi : v < 2 ^ 31) :
    (ConstantScalarValue.fmt formats (.int v .i32)).map String.toList =
      some ((if v < 0 then ['-'] else []) ++ Nat.toDigits 10 v.natAbs ++ ['i']) := by
  have hcast : asI32 v = v := by
    unfold asI32
    split_ifs <;> omega
  simp only [ConstantScalarValue.fmt, hcast, displayInt, Option.map_some']
  split_ifs with hneg
  · rfl
  · rw [show v.toNat = v.natAbs by omega]
    rfl

/-- The rendered text of every lowered `I32`, `UInt` and `Bool` constant in range, read as
WGSL. The `UInt` and `Bool` constants and the `I32` constants above `i32::MIN` mean their
own value. The text of `i32::MIN` is `-2147483648i`, the negation of a literal that does not
fit `i32`, and it has no value. -/
theorem constant_literal_value :
    (∀ v : Int, -2 ^ 31 ≤ v → v < 2 ^ 31 →
      ∃ w, compileVariable (.constantScalar (.int v .i32)) c = some (w, c) ∧
        ((w.fmt formats).map String.toList).bind literalExpression? =
          if v = -2 ^ 31 then none else some (.i32 v)) ∧
    (∀ v : Nat, v < 2 ^ 32 →
      ∃ w, compileVariable (.constantScalar (.uint v)) c = some (w, c) ∧
        ((w.fmt formats).map String.toList).bind literalExpression? = some (.u32 v)) ∧
    (∀ b : Bool,
      ∃ w, compileVariable (.constantScalar (.bool b)) c = some (w, c) ∧
        ((w.fmt formats).map String.toList).bind literalExpression? = some (.bool b)) := by
  refine ⟨fun v hlo hhi => ⟨_, rfl, ?_⟩, fun v hv => ⟨_, rfl, ?_⟩, fun b => ⟨_, rfl, ?_⟩⟩
  · show ((ConstantScalarValue.fmt formats (.int v .i32)).map String.toList).bind
      literalExpression? = _
    rw [fmt_i32 formats hlo hhi, Option.some_bind]
    split_ifs with hneg hmin hmin
    · subst hmin
      show literalExpression? ('-' :: (Nat.toDigits 10 (2 ^ 31) ++ ['i'])) = none
      rw [literalExpression?_neg, intLiteral?_i32, if_neg (by decide)]
      rfl
    · show literalExpression? ('-' :: (Nat.toDigits 10 v.natAbs ++ ['i'])) = _
      rw [literalExpression?_neg, intLiteral?_i32, if_pos (by omega), Option.some_bind]
      dsimp only
      congr 2
      omega
    · omega
    · rw [List.nil_append, literalExpression?_toDigits _ (by decide), intLiteral?_i32,
        if_pos (by omega)]
      congr 2
      omega
  · show ((ConstantScalarValue.fmt formats (.uint v)).map String.toList).bind
      literalExpression? = _
    simp only [ConstantScalarValue.fmt, asU32, Nat.mod_eq_of_lt hv, Option.map_some',
      Option.some_bind]
    rw [show (displayNat v ++ "u").toList = Nat.toDigits 10 v ++ ['u'] from rfl,
      literalExpression?_toDigits _ (by decide), intLiteral?_u32, if_pos hv]
  · cases b <;> rfl

end Constants

/-- `i32::MIN`: the constant lowers, renders as `-2147483648i`, and that text has no
value. -/
theorem constant_literal_value_min :
    (Variable.constantScalar (.int (-2 ^ 31) .i32) .i32).fmt
        ⟨fun _ => "", fun _ => "", fun _ => ""⟩ = some "-2147483648i" ∧
      ∃ w, compileVariable (.constantScalar (.int (-2 ^ 31) .i32)) {} = some (w, {}) ∧
        ((w.fmt ⟨fun _ => "", fun _ => "", fun _ => ""⟩).map String.toList).bind
          literalExpression? = none := by
  obtain ⟨w, hw, hvalue⟩ := (constant_literal_value ⟨fun _ => "", fun _ => "", fun _ => ""⟩ {}).1
    (-2 ^ 31) (by decide) (by decide)
  exact ⟨rfl, w, hw, hvalue.trans (if_pos rfl)⟩

end CubeCL.Wgsl
