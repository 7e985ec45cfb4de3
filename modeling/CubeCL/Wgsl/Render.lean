import CubeCL.Wgsl.Instruction
import CubeCL.Wgsl.Literal

/-!
# `CubeCL.Wgsl.Render`: the text of the WGSL instructions

`impl Display for Instruction` of `compiler/wgsl/instructions.rs` writes the body of a
shader: one `format_args!` template per instruction, and for the compound instructions
(`If`, `IfElse`, `RangeLoop`, `Loop`) a header, the text of their own instructions and a
closing brace. Here a template is a list of `Piece`s, its literal text and the values it
interpolates (a variable, a component `var.index(i)`, an item, an element, a number), and
`writeFmt` is the one place where a template becomes text.

Writing panics in three places of `src/`, which are `none` here: the `assert_eq!(lhs, out)`
of the operations that have an atomic form, `comparison` of a vector `rhs` into a scalar
`out`, and the `todo!` of a half-precision constant in `Display for Variable`.
`Display for Subgroup` is declared in a file that is not under `src/`, so its text is a
parameter, `subgroup`.

## Results

* `writeFmt_noBraces`: a template of pieces without braces writes a text without braces.
* `Instruction.fmt_neutral`: the text of every instruction tree leaves the depth of
  braces where it found it and never closes a brace it did not open, as long as the
  variables' own texts hold no brace.
* `fmt_well_nested`: so the body `Display` writes for every instruction tree is well
  nested.
-/

set_option autoImplicit false

namespace CubeCL.Wgsl

/-! ### Elements, items and components -/

/-- `Display for Elem`. -/
def Elem.fmt : Elem → String
  | .f32 => "f32"
  | .i32 => "i32"
  | .atomicI32 => "atomic<i32>"
  | .u32 => "u32"
  | .atomicU32 => "atomic<u32>"
  | .bool => "bool"

/-- `Display for Item`. -/
def Item.fmt : Item → String
  | .vec4 elem => "vec4<" ++ elem.fmt ++ ">"
  | .vec3 elem => "vec3<" ++ elem.fmt ++ ">"
  | .vec2 elem => "vec2<" ++ elem.fmt ++ ">"
  | .scalar elem => elem.fmt

/-- `Elem::is_atomic`. -/
def Elem.isAtomic : Elem → Bool
  | .atomicI32 | .atomicU32 => true
  | .f32 | .i32 | .u32 | .bool => false

/-- The closure `should_index` of `Display for IndexedVariable`: only the components of a
vector are indexed. -/
def Item.shouldIndex : Item → Bool
  | .vec4 _ | .vec3 _ | .vec2 _ => true
  | .scalar _ => false

namespace Variable

/-- `Variable::is_atomic`: the element of the variable's storage is atomic. -/
def isAtomic : Variable → Bool
  | .globalInputArray _ item | .globalOutputArray _ item => item.elem.isAtomic
  | .globalScalar _ elem _ => elem.isAtomic
  | .local _ item _ | .named _ item _ | .slice _ item _ => item.elem.isAtomic
  | .localScalar _ elem _ => elem.isAtomic
  | .sharedMemory _ item _ | .localArray _ item _ _ => item.elem.isAtomic
  | _ => false

/-- `Variable::elem`. -/
def elem (var : Variable) : Elem := var.item.elem

/-- `Display for IndexedVariable`, the text of `var.index(index)`: a component of a vector
is `{var}[{index}]`; a scalar, and a `GlobalScalar`, are written whole. -/
def fmtIndex (formats : Formats) (var : Variable) (index : Nat) : Option String := do
  let text ← var.fmt formats
  match var with
  | .globalScalar .. => pure text
  | _ => pure (if var.item.shouldIndex then text ++ "[" ++ displayNat index ++ "]" else text)

/-- The `is_array` of `index_assign`: `out` is written as an array. -/
def isArray : Variable → Bool
  | .globalInputArray .. | .globalOutputArray .. | .sharedMemory .. | .slice ..
  | .localArray .. => true
  | .named _ _ array => array
  | _ => false

end Variable

/-- The array `(*{name}_ptr)` that `Index` and `IndexAssign` read and write for a slice
named `name`. -/
def slicePointer (name : String) (item : Item) : Variable :=
  .named ("(*" ++ name ++ "_ptr)") item true

/-- The offset `{name}_offset` of a slice named `name`. -/
def sliceOffset (name : String) : Variable := .named (name ++ "_offset") (.scalar .u32) false

/-! ### Templates -/

/-- A piece of a `format_args!` template: literal text, or a value it interpolates. -/
inductive Piece where
  | text (text : String)
  | var (var : Variable)
  | index (var : Variable) (index : Nat)
  | item (item : Item)
  | elem (elem : Elem)
  | nat (n : Nat)

/-- The text of a piece; `none` when the variable's `Display` panics. -/
def Piece.fmt (formats : Formats) : Piece → Option String
  | .text s => some s
  | .var v => v.fmt formats
  | .index v k => v.fmtIndex formats k
  | .item i => some i.fmt
  | .elem e => some e.fmt
  | .nat n => some (displayNat n)

/-- `write_fmt` of a template: its pieces in order, or `none` when one panics. -/
def writeFmt (formats : Formats) : List Piece → Option String
  | [] => some ""
  | piece :: pieces => do
      let text ← piece.fmt formats
      let rest ← writeFmt formats pieces
      pure (text ++ rest)

/-- Parts of a template in a row, with `sep` between two of them. -/
def separated (sep : List Piece) : List (List Piece) → List Piece
  | [] => []
  | [part] => part
  | part :: parts => part ++ sep ++ separated sep parts

/-- `{out} = {name}({arg}, ...);\n`. -/
def callTemplate (name : String) (out : Piece) (args : List Piece) : List Piece :=
  [out, .text (" = " ++ name ++ "(")] ++ separated [.text ", "] (args.map fun arg => [arg]) ++
    [.text ");\n"]

/-- `{out} = {lhs}{op}{rhs};\n`, for an infix operator `op` with its blanks. -/
def infixTemplate (op : String) (lhs rhs out : Variable) : List Piece :=
  [.var out, .text " = ", .var lhs, .text op, .var rhs, .text ";\n"]

/-- An operation that has an atomic form: on an atomic `out` it must update `out` in place
(`assert_eq!(lhs, out)`) and is `{atomic}({out}, {rhs});\n`. -/
def withAtomic (atomic : String) (lhs rhs out : Variable) (regular : List Piece) :
    Option (List Piece) :=
  if out.isAtomic then
    if lhs = out then some [.text (atomic ++ "("), .var out, .text ", ", .var rhs, .text ");\n"]
    else none
  else some regular

/-- An atomic read-modify-write, `{out} = {name}({lhs}, {rhs});`, without a line break. -/
def atomicTemplate (name : String) (lhs rhs out : Variable) : List Piece :=
  [.var out, .text (" = " ++ name ++ "("), .var lhs, .text ", ", .var rhs, .text ");"]

/-- `unroll`: the template once per component `0 .. vectorization_factor`. -/
def unroll (vectorizationFactor : Nat) (func : Nat → List Piece) : List Piece :=
  (List.range vectorizationFactor).flatMap func

/-- `comparison`: a vector `out` compares component by component, on a line of its own; a
scalar `out` compares whole, and panics on a vector `rhs`. -/
def comparison (lhs rhs out : Variable) (op : String) : Option (List Piece) :=
  let component (k : Nat) : List Piece := [.index lhs k, .text (" " ++ op ++ " "), .index rhs k]
  let vector (name : String) (components : List (List Piece)) : List Piece :=
    [.text "\n", .var out, .text (" = " ++ name ++ "(")] ++ separated [.text ", "] components ++
      [.text ");\n"]
  match out.item with
  | .vec4 _ => some (vector "vec4" [component 0, component 1, component 2, component 3])
  | .vec3 _ => some (vector "vec3" [component 0, component 1, component 2])
  | .vec2 _ => some (vector "vec2" [component 0, component 1])
  | .scalar _ =>
      match rhs.item with
      | .scalar _ =>
          some [.var out, .text " = ", .var lhs, .text (" " ++ op ++ " "), .var rhs, .text ";\n"]
      | _ => none

/-- `index`: `out` reads `lhs[rhs]`, after `offset` when there is one: by reference for an
atomic element, and through a cast to `out`'s item when the elements differ. -/
def indexTemplate (lhs rhs out : Variable) (offset : Option Variable) : List Piece :=
  let position : List Piece := .var rhs :: match offset with
    | some offset => [.text " + ", .var offset]
    | none => []
  if out.item.elem.isAtomic then
    [.text "let ", .var out, .text " = &", .var lhs, .text "["] ++ position ++ [.text "];\n"]
  else if lhs.elem ≠ out.elem then
    [.var out, .text " = ", .item out.item, .text "(", .var lhs, .text "["] ++ position ++
      [.text "]);\n"]
  else [.var out, .text " = ", .var lhs, .text "["] ++ position ++ [.text "];\n"]

/-- `Display for IndexOffset`: the component `index` of `var`, plus that of `offset`. -/
def indexOffset (var : Variable) (offset : Option Variable) (index : Nat) : List Piece :=
  .index var index :: match offset with
    | some offset => [.text " + ", .index offset index]
    | none => []

/-- The lines `index_assign` writes for a vector `lhs`, one per component `k`:
`{out}[{lhs_k}] = {elem}({rhs_k});\n`. -/
def indexAssignComponents (lhs rhs out : Variable) (offset : Option Variable) (elem : Elem)
    (n : Nat) : List Piece :=
  (List.range n).flatMap fun k =>
    [.var out, .text "["] ++ indexOffset lhs offset k ++
      [.text "] = ", .elem elem, .text "(", .index rhs k, .text ");\n"]

/-- The line `index_assign` writes for a scalar `lhs`: `rhs` whole, cast to `out`'s element,
or, into an array whose items have more components than `rhs`, as a vector of `rhs`'s
components. -/
def indexAssignScalar (lhs rhs out : Variable) (offset : Option Variable) : List Piece :=
  if !out.isArray then
    let castingType : Item := match rhs.item with
      | .vec4 _ => .vec4 out.elem
      | .vec3 _ => .vec3 out.elem
      | .vec2 _ => .vec2 out.elem
      | .scalar _ => .scalar out.elem
    [.var out, .text "[", .var lhs, .text "] = ", .item castingType, .text "(", .var rhs,
      .text ");\n"]
  else
    let vectorizationFactor := out.item.vectorizationFactor
    if vectorizationFactor > rhs.item.vectorizationFactor then
      [.var out, .text "["] ++ indexOffset lhs offset 0 ++
        [.text "] = vec", .nat vectorizationFactor, .text "("] ++
        (List.range vectorizationFactor).flatMap (fun i =>
          [.elem out.item.elem, .text "(", .index rhs i, .text ")"] ++
            if i < vectorizationFactor - 1 then [.text ","] else []) ++
        [.text ");\n"]
    else
      [.var out, .text "["] ++ indexOffset lhs offset 0 ++
        [.text "] = ", .item out.item, .text "(", .var rhs, .text ");\n"]

/-- `index_assign`: `out[lhs]` takes `rhs`, one line per component of a vector `lhs`. -/
def indexAssignTemplate (lhs rhs out : Variable) (offset : Option Variable) : List Piece :=
  match lhs.item with
  | .vec4 elem => indexAssignComponents lhs rhs out offset elem 4
  | .vec3 elem => indexAssignComponents lhs rhs out offset elem 3
  | .vec2 elem => indexAssignComponents lhs rhs out offset elem 2
  | .scalar _ => indexAssignScalar lhs rhs out offset

/-- The arms of `Display for Instruction` over `lhs`, `rhs`, `out`: the template, or `none`
for a panic. `Index` reads, and `IndexAssign` writes, a slice through its pointer and its
offset. -/
def BinaryKind.template (formats : Formats) (lhs rhs out : Variable) :
    BinaryKind → Option (List Piece)
  | .max => withAtomic "atomicMax" lhs rhs out (callTemplate "max" (.var out) [.var lhs, .var rhs])
  | .min => withAtomic "atomicMin" lhs rhs out (callTemplate "min" (.var out) [.var lhs, .var rhs])
  | .add => withAtomic "atomicAdd" lhs rhs out (infixTemplate " + " lhs rhs out)
  | .index =>
      match lhs with
      | .slice _ item _ => (lhs.fmt formats).map fun name =>
          indexTemplate (slicePointer name item) rhs out (some (sliceOffset name))
      | _ => some (indexTemplate lhs rhs out none)
  | .indexAssign =>
      match out with
      | .slice _ item _ => (out.fmt formats).map fun name =>
          indexAssignTemplate lhs rhs (slicePointer name item) (some (sliceOffset name))
      | _ => some (indexAssignTemplate lhs rhs out none)
  | .modulo => some (infixTemplate " % " lhs rhs out)
  | .sub => withAtomic "atomicSub" lhs rhs out (infixTemplate " - " lhs rhs out)
  | .mul => some (infixTemplate " * " lhs rhs out)
  | .div => some (infixTemplate " / " lhs rhs out)
  | .powf =>
      if rhs.isAlwaysScalar then some (callTemplate "powf_scalar" (.var out) [.var lhs, .var rhs])
      else some (unroll out.item.vectorizationFactor fun k =>
        callTemplate "powf_primitive" (.index out k) [.index lhs k, .index rhs k])
  | .equal => comparison lhs rhs out "=="
  | .lower => comparison lhs rhs out "<"
  | .greater => comparison lhs rhs out ">"
  | .lowerEqual => comparison lhs rhs out "<="
  | .greaterEqual => comparison lhs rhs out ">="
  | .notEqual => comparison lhs rhs out "!="
  | .and => withAtomic "atomicAnd" lhs rhs out (infixTemplate " && " lhs rhs out)
  | .or => withAtomic "atomicOr" lhs rhs out (infixTemplate " || " lhs rhs out)
  | .bitwiseAnd => some (infixTemplate " & " lhs rhs out)
  | .bitwiseXor => some (infixTemplate " ^ " lhs rhs out)
  | .shiftLeft => some (infixTemplate " << " lhs rhs out)
  | .shiftRight => some (infixTemplate " >> " lhs rhs out)
  | .remainder => some [.var out, .text " = ", .var lhs, .text " - ", .var rhs,
      .text " * floor(", .var lhs, .text " / ", .var rhs, .text ");\n"]
  | .atomicSwap => some (atomicTemplate "atomicExchange" lhs rhs out)
  | .atomicAdd => some (atomicTemplate "atomicAdd" lhs rhs out)
  | .atomicSub => some (atomicTemplate "atomicSub" lhs rhs out)
  | .atomicMax => some (atomicTemplate "atomicMax" lhs rhs out)
  | .atomicMin => some (atomicTemplate "atomicMin" lhs rhs out)
  | .atomicAnd => some (atomicTemplate "atomicAnd" lhs rhs out)
  | .atomicOr => some (atomicTemplate "atomicOr" lhs rhs out)
  | .atomicXor => some (atomicTemplate "atomicXor" lhs rhs out)

/-- `Assign` to a vector: `{out} = vecN(`, one cast component a line, then `);`. -/
def assignComponents (name : String) (elem : Elem) (n : Nat) (input out : Variable) :
    List Piece :=
  [.var out, .text (" = " ++ name ++ "(\n")] ++
    (List.range n).flatMap (fun k =>
      [.text "    ", .elem elem, .text "(", .index input k, .text "),\n"]) ++
    [.text ");\n"]

/-- The arms of `Display for Instruction` over `input`, `out`. `Tanh` calls `safe_tanh` on
macOS. -/
def UnaryKind.template (macos : Bool) (input out : Variable) : UnaryKind → List Piece
  | .assign =>
      match out.item with
      | .vec4 elem => assignComponents "vec4" elem 4 input out
      | .vec3 elem => assignComponents "vec3" elem 3 input out
      | .vec2 elem => assignComponents "vec2" elem 2 input out
      | .scalar elem =>
          if elem.isAtomic then [.text "let ", .var out, .text " = &", .var input, .text ";\n"]
          else [.var out, .text " = ", .elem elem, .text "(", .var input, .text ");\n"]
  | .abs => callTemplate "abs" (.var out) [.var input]
  | .exp => callTemplate "exp" (.var out) [.var input]
  | .log => callTemplate "log" (.var out) [.var input]
  | .log1p => [.var out, .text " = log(", .var input, .text " + 1.0);\n"]
  | .cos => callTemplate "cos" (.var out) [.var input]
  | .sin => callTemplate "sin" (.var out) [.var input]
  | .tanh => callTemplate (if macos then "safe_tanh" else "tanh") (.var out) [.var input]
  | .sqrt => callTemplate "sqrt" (.var out) [.var input]
  | .erf => callTemplate "erf" (.var out) [.var input]
  | .recip => [.var out, .text " = 1.0 / ", .var input, .text ";"]
  | .not => [.var out, .text " = !", .var input, .text ";\n"]
  | .floor => callTemplate "floor" (.var out) [.var input]
  | .ceil => callTemplate "ceil" (.var out) [.var input]
  | .bitcast => [.var out, .text " = bitcast<", .elem out.elem, .text ">(", .var input,
      .text ");\n"]
  | .atomicLoad => callTemplate "atomicLoad" (.var out) [.var input]
  | .atomicStore => [.text "atomicStore(", .var out, .text ",", .var input, .text ");\n"]

/-! ### `Display for Instruction` -/

section Fmt

variable (formats : Formats) (macos : Bool) (subgroup : Subgroup → Option String)

mutual

/-- `impl Display for Instruction`: the text of an instruction, or `none` for a panic. -/
def Instruction.fmt : Instruction → Option String
  | .declareVariable var =>
      writeFmt formats [.text "var ", .var var, .text ": ", .item var.item, .text ";\n"]
  | .binary kind lhs rhs out => kind.template formats lhs rhs out >>= writeFmt formats
  | .unary kind input out => writeFmt formats (kind.template macos input out)
  | .fma a b c out => writeFmt formats (callTemplate "fma" (.var out) [.var a, .var b, .var c])
  | .clamp input minValue maxValue out =>
      writeFmt formats (unroll out.item.vectorizationFactor fun k =>
        callTemplate "clamp" (.index out k) [.index input k, .index minValue k, .index maxValue k])
  | .slice input start «end» out =>
      writeFmt formats [.text "let ", .var out, .text "_offset = ", .var start, .text ";\n",
        .text "let ", .var out, .text "_length = ", .var «end», .text " - ", .var start,
        .text ";\n", .text "let ", .var out, .text "_ptr = &", .var input, .text ";\n"]
  | .atomicCompareExchangeWeak lhs cmp value out =>
      writeFmt formats [.var out, .text " = atomicCompareExchangeWeak(", .var lhs, .text ", ",
        .var cmp, .text ", ", .var value, .text ").old_value;\n"]
  | .stride dim position out =>
      writeFmt formats [.var out, .text " = info[(", .nat position, .text "u * rank_2) + ",
        .var dim, .text " + 1u];\n"]
  | .shape dim position out =>
      writeFmt formats [.var out, .text " = info[(", .nat position,
        .text "u * rank_2) + rank + ", .var dim, .text " + 1u];\n"]
  | .length var out =>
      match var with
      | .slice .. => writeFmt formats [.var out, .text " = ", .var var, .text "_length;\n"]
      | _ => writeFmt formats [.var out, .text " = arrayLength(&", .var var, .text ");\n"]
  | .if cond instructions => do
      let cond ← cond.fmt formats
      let body ← Instruction.fmtList instructions
      pure ("if " ++ cond ++ " \x7b\n" ++ body ++ "\x7d\n")
  | .ifElse cond instructionsIf instructionsElse => do
      let cond ← cond.fmt formats
      let bodyIf ← Instruction.fmtList instructionsIf
      let bodyElse ← Instruction.fmtList instructionsElse
      pure ("if " ++ cond ++ " \x7b\n" ++ bodyIf ++ "\x7d else \x7b\n" ++ bodyElse ++ "\x7d\n")
  | .rangeLoop i start «end» step instructions => do
      let increment ← writeFmt formats (match step with
        | some step => [.var i, .text " += ", .var step]
        | none => [.var i, .text "++"])
      let head ← writeFmt formats [.text "\nfor (var ", .var i, .text ": u32 = ", .var start,
        .text "; ", .var i, .text " < ", .var «end», .text "; "]
      let body ← Instruction.fmtList instructions
      pure (head ++ increment ++ ") \x7b\n" ++ body ++ "\x7d\n")
  | .loop instructions => do
      let body ← Instruction.fmtList instructions
      pure ("loop \x7b\n" ++ body ++ "\x7d\n")
  | .return => some "return;\n"
  | .break => some "break;\n"
  | .workgroupBarrier => some "workgroupBarrier();\n"
  | .storageBarrier => some "storageBarrier();\n"
  | .subgroup op => subgroup op

/-- The instructions of a body, each after the other. -/
def Instruction.fmtList : List Instruction → Option String
  | [] => some ""
  | instruction :: instructions => do
      let text ← instruction.fmt
      let rest ← Instruction.fmtList instructions
      pure (text ++ rest)

end

end Fmt

/-! ### Braces

`braceDepth` reads a text as a WGSL parser reads its braces. A text is `Neutral` when,
read at any depth, it ends at that depth without closing a brace it did not open; the
body of a shader is well nested when it is read from depth `0` back to `0`. -/

/-- The text holds no brace. -/
def noBraces (text : String) : Bool := text.data.all fun c => c != '\x7b' && c != '\x7d'

/-- The depth of braces after reading `cs` at depth `depth`; `none` when a closing brace
closes nothing. -/
def braceDepth : Nat → List Char → Option Nat
  | depth, [] => some depth
  | depth, c :: cs =>
      if c = '\x7b' then braceDepth (depth + 1) cs
      else if c = '\x7d' then
        match depth with
        | 0 => none
        | depth + 1 => braceDepth depth cs
      else braceDepth depth cs

/-- Reading the text at any depth ends at that depth, and closes nothing it did not
open. -/
def Neutral (cs : List Char) : Prop := ∀ depth, braceDepth depth cs = some depth

@[simp]
theorem noBraces_append (a b : String) : noBraces (a ++ b) = (noBraces a && noBraces b) := by
  simp [noBraces, String.data_append]

/-- Reading two texts is reading the first, then the second from where the first ends. -/
theorem braceDepth_append (a b : List Char) (depth : Nat) :
    braceDepth depth (a ++ b) = (braceDepth depth a).bind fun depth => braceDepth depth b := by
  induction a generalizing depth with
  | nil => rfl
  | cons c a ih =>
      simp only [List.cons_append, braceDepth]
      split_ifs
      · exact ih _
      · cases depth
        · rfl
        · exact ih _
      · exact ih _

theorem Neutral.append {a b : List Char} (ha : Neutral a) (hb : Neutral b) :
    Neutral (a ++ b) := fun depth => by
  rw [braceDepth_append, ha, Option.some_bind, hb]

/-- A text without braces is neutral. -/
theorem neutral_of_noBraces {text : String} (h : noBraces text = true) : Neutral text.data := by
  obtain ⟨cs⟩ := text
  induction cs with
  | nil => exact fun _ => rfl
  | cons c cs ih =>
      simp only [noBraces, List.all_cons, Bool.and_eq_true, bne_iff_ne, ne_eq] at h ih
      intro depth
      simp only [braceDepth, h.1.1, h.1.2, if_false]
      exact ih h.2 depth

/-- The digits of a number hold no brace. -/
@[simp]
theorem noBraces_displayNat (n : Nat) : noBraces (displayNat n) = true := by
  have hdigit : ∀ c : Char, c.isDigit → (c != '\x7b' && c != '\x7d') = true := by
    intro c hc
    simp only [Char.isDigit, Bool.and_eq_true, decide_eq_true_eq] at hc
    simp only [Bool.and_eq_true, bne_iff_ne, ne_eq]
    constructor <;> rintro rfl <;> simp_all
  exact List.all_eq_true.mpr fun c hc => hdigit c (isDigit_of_mem_toDigits n c hc)

@[simp]
theorem noBraces_elem_fmt (elem : Elem) : noBraces elem.fmt = true := by
  cases elem <;> decide

@[simp]
theorem noBraces_item_fmt (item : Item) : noBraces item.fmt = true := by
  cases item <;> simp +decide [Item.fmt]

/-- What `Formats` writes holds no brace. -/
structure Formats.WithoutBraces (formats : Formats) : Prop where
  cubeElem : ∀ elem, noBraces (formats.cubeElem elem) = true
  f32 : ∀ bits, noBraces (formats.f32 bits) = true
  f64 : ∀ bits, noBraces (formats.f64 bits) = true

/-- A variable whose own text holds no brace: its text is made of fixed words, digits and
what `Formats` writes, but for the name of a `Named` variable. -/
def Variable.namedWithoutBraces : Variable → Bool
  | .named name _ _ => noBraces name
  | _ => true

section Pieces

variable {formats : Formats} (hformats : formats.WithoutBraces)
include hformats

theorem ConstantScalarValue.fmt_noBraces {value : IR.ConstantScalarValue} {text : String}
    (h : ConstantScalarValue.fmt formats value = some text) : noBraces text = true := by
  cases value with
  | int val kind => cases kind <;> cases h <;> simp only [displayInt] <;> split <;> simp +decide
  | float val kind => cases kind <;> cases h <;> simp +decide [hformats.f32, hformats.f64]
  | uint val => cases h; simp +decide
  | bool val => cases h; cases val <;> decide

theorem Variable.fmt_noBraces {var : Variable} (hvar : var.namedWithoutBraces = true)
    {text : String} (h : var.fmt formats = some text) : noBraces text = true := by
  cases var
  case constantScalar => exact ConstantScalarValue.fmt_noBraces hformats h
  case named => cases h; exact hvar
  all_goals
    cases h
    first
    | decide
    | simp only [noBraces_append, noBraces_displayNat, hformats.cubeElem, Bool.and_true,
        Bool.true_and]; decide

theorem Variable.fmtIndex_noBraces {var : Variable} (hvar : var.namedWithoutBraces = true)
    {index : Nat} {text : String} (h : var.fmtIndex formats index = some text) :
    noBraces text = true := by
  simp only [Variable.fmtIndex, Option.bind_eq_bind, Option.bind_eq_some] at h
  obtain ⟨name, hname, h⟩ := h
  have := Variable.fmt_noBraces hformats hvar hname
  split at h <;> (try split_ifs at h) <;> cases h <;> simp +decide [this]

end Pieces

/-- A piece whose text holds no brace when the variables' own texts hold none. -/
def Piece.withoutBraces : Piece → Bool
  | .text s => noBraces s
  | .var v | .index v _ => v.namedWithoutBraces
  | .item _ | .elem _ | .nat _ => true

@[simp] theorem Piece.withoutBraces_text (s : String) :
    (Piece.text s).withoutBraces = noBraces s := rfl
@[simp] theorem Piece.withoutBraces_var (v : Variable) :
    (Piece.var v).withoutBraces = v.namedWithoutBraces := rfl
@[simp] theorem Piece.withoutBraces_index (v : Variable) (k : Nat) :
    (Piece.index v k).withoutBraces = v.namedWithoutBraces := rfl
@[simp] theorem Piece.withoutBraces_item (item : Item) : (Piece.item item).withoutBraces = true := rfl
@[simp] theorem Piece.withoutBraces_elem (elem : Elem) : (Piece.elem elem).withoutBraces = true := rfl
@[simp] theorem Piece.withoutBraces_nat (n : Nat) : (Piece.nat n).withoutBraces = true := rfl

theorem Piece.fmt_noBraces {formats : Formats} (hformats : formats.WithoutBraces) {piece : Piece}
    (hpiece : piece.withoutBraces = true) {text : String} (h : piece.fmt formats = some text) :
    noBraces text = true := by
  cases piece <;> simp only [Piece.fmt, Option.some.injEq] at h
  case var => exact Variable.fmt_noBraces hformats hpiece h
  case index => exact Variable.fmtIndex_noBraces hformats hpiece h
  case text => subst h; exact hpiece
  all_goals subst h; simp

/-- A template of pieces without braces writes a text without braces. -/
theorem writeFmt_noBraces {formats : Formats} (hformats : formats.WithoutBraces) :
    ∀ {pieces : List Piece}, pieces.all Piece.withoutBraces = true →
      ∀ {text : String}, writeFmt formats pieces = some text → noBraces text = true
  | [], _, _, h => by cases h; rfl
  | piece :: pieces, hpieces, _, h => by
      simp only [writeFmt, Option.bind_eq_bind, Option.bind_eq_some, Option.pure_def,
        Option.some.injEq] at h
      obtain ⟨first, hfirst, rest, hrest, rfl⟩ := h
      simp only [List.all_cons, Bool.and_eq_true] at hpieces
      simp only [noBraces_append, Piece.fmt_noBraces hformats hpieces.1 hfirst,
        writeFmt_noBraces hformats hpieces.2 hrest, Bool.and_self]


theorem all_separated {sep : List Piece} (hsep : sep.all Piece.withoutBraces = true) :
    ∀ {parts : List (List Piece)}, (parts.all fun part => part.all Piece.withoutBraces) = true →
      (separated sep parts).all Piece.withoutBraces = true
  | [], _ => rfl
  | [part], h => by simpa [separated] using h
  | part :: part' :: parts, h => by
      simp only [List.all_cons, Bool.and_eq_true] at h
      simp only [separated, List.all_append, hsep, h.1, Bool.and_self, Bool.true_and]
      exact all_separated hsep (by simpa using h.2)

/-- A call `{out} = {name}({arg}, ...);` holds no brace of its own. -/
theorem callTemplate_withoutBraces {name : String} (hname : noBraces name = true)
    {outPiece : Piece} (hout : outPiece.withoutBraces = true) {args : List Piece}
    (hargs : args.all Piece.withoutBraces = true) :
    (callTemplate name outPiece args).all Piece.withoutBraces = true := by
  simp only [callTemplate, List.all_append, List.all_cons, List.all_nil, hout,
    Piece.withoutBraces_text, noBraces_append, hname]
  rw [all_separated (by decide) (by simpa using hargs)]
  decide

theorem slicePointer_withoutBraces {name : String} (h : noBraces name = true) (item : Item) :
    (slicePointer name item).namedWithoutBraces = true := by
  simp +decide [slicePointer, Variable.namedWithoutBraces, h]

theorem sliceOffset_withoutBraces {name : String} (h : noBraces name = true) :
    ∀ o ∈ some (sliceOffset name), o.namedWithoutBraces = true := by
  simp +decide [sliceOffset, Variable.namedWithoutBraces, h]

section Templates
variable {lhs rhs out : Variable} (hlhs : lhs.namedWithoutBraces = true)
  (hrhs : rhs.namedWithoutBraces = true) (hout : out.namedWithoutBraces = true)
include hlhs hrhs hout

theorem infixTemplate_withoutBraces {op : String} (hop : noBraces op = true) :
    (infixTemplate op lhs rhs out).all Piece.withoutBraces = true := by
  simp only [infixTemplate, List.all_cons, List.all_nil, Piece.withoutBraces_var,
    Piece.withoutBraces_text, hop, hlhs, hrhs, hout, Bool.and_true]
  decide

theorem atomicTemplate_withoutBraces {name : String} (hname : noBraces name = true) :
    (atomicTemplate name lhs rhs out).all Piece.withoutBraces = true := by
  simp only [atomicTemplate, List.all_cons, List.all_nil, Piece.withoutBraces_var,
    Piece.withoutBraces_text, noBraces_append, hname, hlhs, hrhs, hout, Bool.and_true]
  decide

theorem indexTemplate_withoutBraces {offset : Option Variable}
    (hoffset : ∀ o ∈ offset, o.namedWithoutBraces = true) :
    (indexTemplate lhs rhs out offset).all Piece.withoutBraces = true := by
  unfold indexTemplate
  cases offset <;> split_ifs <;> simp_all +decide

omit hrhs hout in
theorem indexOffset_withoutBraces {offset : Option Variable}
    (hoffset : ∀ o ∈ offset, o.namedWithoutBraces = true) (k : Nat) :
    (indexOffset lhs offset k).all Piece.withoutBraces = true := by
  cases offset <;> simp_all +decide [indexOffset]

theorem indexAssignTemplate_withoutBraces {offset : Option Variable}
    (hoffset : ∀ o ∈ offset, o.namedWithoutBraces = true) :
    (indexAssignTemplate lhs rhs out offset).all Piece.withoutBraces = true := by
  have hoffset := indexOffset_withoutBraces hlhs hoffset
  have hcomponents (elem : Elem) (n : Nat) :
      (indexAssignComponents lhs rhs out offset elem n).all Piece.withoutBraces = true := by
    simp +decide [indexAssignComponents, List.all_flatMap, *]
  have hscalar : (indexAssignScalar lhs rhs out offset).all Piece.withoutBraces = true := by
    unfold indexAssignScalar
    split_ifs <;>
      simp +decide [List.all_flatMap, apply_ite (List.all · Piece.withoutBraces), *]
  unfold indexAssignTemplate
  split <;> simp only [hcomponents, hscalar]

theorem comparison_withoutBraces {op : String} (hop : noBraces op = true) {pieces : List Piece}
    (h : comparison lhs rhs out op = some pieces) : pieces.all Piece.withoutBraces = true := by
  unfold comparison at h
  split at h
  iterate 3 cases h; simp +decide [all_separated, *]
  split at h <;> cases h
  simp +decide [*]

omit hlhs in
theorem withAtomic_withoutBraces {atomic : String} (hatomic : noBraces atomic = true)
    {regular : List Piece} (hregular : regular.all Piece.withoutBraces = true) {pieces : List Piece}
    (h : withAtomic atomic lhs rhs out regular = some pieces) :
    pieces.all Piece.withoutBraces = true := by
  unfold withAtomic at h
  split_ifs at h <;> cases h
  · simp +decide [*]
  · exact hregular

theorem BinaryKind.template_withoutBraces {formats : Formats} (hformats : formats.WithoutBraces)
    (kind : BinaryKind) {pieces : List Piece} (h : kind.template formats lhs rhs out = some pieces) :
    pieces.all Piece.withoutBraces = true := by
  cases kind <;> dsimp only [BinaryKind.template] at h
  case index =>
    split at h
    · obtain ⟨name, hname, rfl⟩ := Option.map_eq_some'.mp h
      have := Variable.fmt_noBraces hformats hlhs hname
      exact indexTemplate_withoutBraces (slicePointer_withoutBraces this _) hrhs hout
        (sliceOffset_withoutBraces this)
    · cases h; exact indexTemplate_withoutBraces hlhs hrhs hout (by simp)
  case indexAssign =>
    split at h
    · obtain ⟨name, hname, rfl⟩ := Option.map_eq_some'.mp h
      have := Variable.fmt_noBraces hformats hout hname
      exact indexAssignTemplate_withoutBraces hlhs hrhs (slicePointer_withoutBraces this _)
        (sliceOffset_withoutBraces this)
    · cases h; exact indexAssignTemplate_withoutBraces hlhs hrhs hout (by simp)
  case max | min =>
    exact withAtomic_withoutBraces hrhs hout (by decide)
      (callTemplate_withoutBraces (by decide) (by exact hout) (by simp [hlhs, hrhs])) h
  case add | sub | and | or =>
    exact withAtomic_withoutBraces hrhs hout (by decide)
      (infixTemplate_withoutBraces hlhs hrhs hout (by decide)) h
  case equal | lower | greater | lowerEqual | greaterEqual | notEqual =>
    exact comparison_withoutBraces hlhs hrhs hout (by decide) h
  case powf =>
    split_ifs at h <;> cases h
    · exact callTemplate_withoutBraces (by decide) (by exact hout) (by simp [hlhs, hrhs])
    · simp only [unroll, List.all_flatMap]
      exact List.all_eq_true.mpr fun k _ =>
        callTemplate_withoutBraces (by decide) (by exact hout) (by simp [hlhs, hrhs])
  case modulo | mul | div | bitwiseAnd | bitwiseXor | shiftLeft | shiftRight =>
    cases h; exact infixTemplate_withoutBraces hlhs hrhs hout (by decide)
  case remainder => cases h; simp +decide [*]
  all_goals cases h; exact atomicTemplate_withoutBraces hlhs hrhs hout (by decide)

end Templates

theorem UnaryKind.template_withoutBraces {input out : Variable}
    (hinput : input.namedWithoutBraces = true) (hout : out.namedWithoutBraces = true)
    (macos : Bool) (kind : UnaryKind) :
    (kind.template macos input out).all Piece.withoutBraces = true := by
  cases kind <;> dsimp only [UnaryKind.template]
  case assign =>
    split <;> (try split_ifs) <;>
      simp +decide [assignComponents, List.all_flatMap, *]
  case tanh =>
    exact callTemplate_withoutBraces (by cases macos <;> decide) (by exact hout) (by simpa)
  case log1p | recip | not | bitcast | atomicStore => simp +decide [*]
  all_goals exact callTemplate_withoutBraces (by decide) (by exact hout) (by simpa)
mutual

/-- The `Named` variables of an instruction tree hold no brace. -/
def Instruction.namedWithoutBraces : Instruction → Bool
  | .declareVariable var => var.namedWithoutBraces
  | .binary _ lhs rhs out =>
      lhs.namedWithoutBraces && rhs.namedWithoutBraces && out.namedWithoutBraces
  | .unary _ input out => input.namedWithoutBraces && out.namedWithoutBraces
  | .fma a b c out =>
      a.namedWithoutBraces && b.namedWithoutBraces && c.namedWithoutBraces &&
        out.namedWithoutBraces
  | .clamp input minValue maxValue out =>
      input.namedWithoutBraces && minValue.namedWithoutBraces && maxValue.namedWithoutBraces &&
        out.namedWithoutBraces
  | .slice input start «end» out =>
      input.namedWithoutBraces && start.namedWithoutBraces && «end».namedWithoutBraces &&
        out.namedWithoutBraces
  | .atomicCompareExchangeWeak lhs cmp value out =>
      lhs.namedWithoutBraces && cmp.namedWithoutBraces && value.namedWithoutBraces &&
        out.namedWithoutBraces
  | .stride dim _ out | .shape dim _ out => dim.namedWithoutBraces && out.namedWithoutBraces
  | .length var out => var.namedWithoutBraces && out.namedWithoutBraces
  | .if cond instructions =>
      cond.namedWithoutBraces && Instruction.listNamedWithoutBraces instructions
  | .ifElse cond instructionsIf instructionsElse =>
      cond.namedWithoutBraces && Instruction.listNamedWithoutBraces instructionsIf &&
        Instruction.listNamedWithoutBraces instructionsElse
  | .rangeLoop i start «end» step instructions =>
      i.namedWithoutBraces && start.namedWithoutBraces && «end».namedWithoutBraces &&
        step.all Variable.namedWithoutBraces && Instruction.listNamedWithoutBraces instructions
  | .loop instructions => Instruction.listNamedWithoutBraces instructions
  | .return | .break | .workgroupBarrier | .storageBarrier | .subgroup _ => true

/-- The `Named` variables of a body hold no brace. -/
def Instruction.listNamedWithoutBraces : List Instruction → Bool
  | [] => true
  | instruction :: instructions =>
      instruction.namedWithoutBraces && Instruction.listNamedWithoutBraces instructions

end

section Nested

variable {formats : Formats} (hformats : formats.WithoutBraces) (macos : Bool)
  {subgroup : Subgroup → Option String}

include hformats in
theorem neutral_of_writeFmt {pieces : List Piece} (hpieces : pieces.all Piece.withoutBraces = true)
    {text : String} (h : writeFmt formats pieces = some text) : Neutral text.data :=
  neutral_of_noBraces (writeFmt_noBraces hformats hpieces h)

mutual

theorem Instruction.fmt_neutral (hformats : formats.WithoutBraces)
    (hsubgroup : ∀ op text, subgroup op = some text → noBraces text = true) :
    ∀ (instruction : Instruction) {text : String}, instruction.namedWithoutBraces = true →
      instruction.fmt formats macos subgroup = some text → Neutral text.data
  | .declareVariable var, _, hnames, h => by
      simp only [Instruction.namedWithoutBraces] at hnames
      exact neutral_of_writeFmt hformats (by simp +decide [hnames]) h
  | .binary kind lhs rhs out, _, hnames, h => by
      simp only [Instruction.namedWithoutBraces, Bool.and_eq_true] at hnames
      simp only [Instruction.fmt, Option.bind_eq_bind, Option.bind_eq_some] at h
      obtain ⟨pieces, hpieces, h⟩ := h
      exact neutral_of_writeFmt hformats
        (BinaryKind.template_withoutBraces hnames.1.1 hnames.1.2 hnames.2 hformats kind hpieces) h
  | .unary kind input out, _, hnames, h => by
      simp only [Instruction.namedWithoutBraces, Bool.and_eq_true] at hnames
      exact neutral_of_writeFmt hformats
        (UnaryKind.template_withoutBraces hnames.1 hnames.2 macos kind) h
  | .fma .., _, hnames, h => by
      simp only [Instruction.namedWithoutBraces, Bool.and_eq_true] at hnames
      exact neutral_of_writeFmt hformats
        (callTemplate_withoutBraces (by decide) (by exact hnames.2) (by simp [hnames])) h
  | .clamp .., _, hnames, h => by
      simp only [Instruction.namedWithoutBraces, Bool.and_eq_true] at hnames
      refine neutral_of_writeFmt hformats (List.all_flatMap ▸ List.all_eq_true.mpr fun k _ => ?_) h
      exact callTemplate_withoutBraces (by decide) (by exact hnames.2) (by simp [hnames])
  | .slice .., _, hnames, h | .atomicCompareExchangeWeak .., _, hnames, h
  | .stride .., _, hnames, h | .shape .., _, hnames, h => by
      simp only [Instruction.namedWithoutBraces, Bool.and_eq_true] at hnames
      exact neutral_of_writeFmt hformats (by simp +decide [*]) h
  | .length var out, _, hnames, h => by
      simp only [Instruction.namedWithoutBraces, Bool.and_eq_true] at hnames
      simp only [Instruction.fmt] at h
      split at h <;> exact neutral_of_writeFmt hformats (by simp +decide [*]) h
  | .if cond instructions, _, hnames, h => by
      simp only [Instruction.namedWithoutBraces, Bool.and_eq_true] at hnames
      simp only [Instruction.fmt, Option.bind_eq_bind, Option.bind_eq_some, Option.pure_def,
        Option.some.injEq] at h
      obtain ⟨c, hc, body, hbody, rfl⟩ := h
      have hc : Neutral c.data := neutral_of_noBraces (Variable.fmt_noBraces hformats hnames.1 hc)
      have hbody : Neutral body.data := Instruction.fmtList_neutral hformats hsubgroup instructions hnames.2 hbody
      intro depth
      simp +decide [String.data_append, braceDepth_append, braceDepth, hc depth, hbody (depth + 1)]
  | .ifElse cond instructionsIf instructionsElse, _, hnames, h => by
      simp only [Instruction.namedWithoutBraces, Bool.and_eq_true] at hnames
      simp only [Instruction.fmt, Option.bind_eq_bind, Option.bind_eq_some, Option.pure_def,
        Option.some.injEq] at h
      obtain ⟨c, hc, bodyIf, hbodyIf, bodyElse, hbodyElse, rfl⟩ := h
      have hc : Neutral c.data := neutral_of_noBraces (Variable.fmt_noBraces hformats hnames.1.1 hc)
      have hbodyIf : Neutral bodyIf.data :=
        Instruction.fmtList_neutral hformats hsubgroup instructionsIf hnames.1.2 hbodyIf
      have hbodyElse : Neutral bodyElse.data :=
        Instruction.fmtList_neutral hformats hsubgroup instructionsElse hnames.2 hbodyElse
      intro depth
      simp +decide [String.data_append, braceDepth_append, braceDepth, hc depth,
        hbodyIf (depth + 1), hbodyElse (depth + 1)]
  | .rangeLoop i start «end» step instructions, _, hnames, h => by
      simp only [Instruction.namedWithoutBraces, Bool.and_eq_true] at hnames
      simp only [Instruction.fmt, Option.bind_eq_bind, Option.bind_eq_some, Option.pure_def,
        Option.some.injEq] at h
      obtain ⟨increment, hincrement, head, hhead, body, hbody, rfl⟩ := h
      have hincrement : Neutral increment.data := neutral_of_writeFmt hformats
        (by cases step <;> simp_all +decide) hincrement
      have hhead : Neutral head.data :=
        neutral_of_writeFmt hformats (by simp +decide [*]) hhead
      have hbody : Neutral body.data := Instruction.fmtList_neutral hformats hsubgroup instructions hnames.2 hbody
      intro depth
      simp +decide [String.data_append, braceDepth_append, braceDepth, hhead depth,
        hincrement depth, hbody (depth + 1)]
  | .loop instructions, _, hnames, h => by
      simp only [Instruction.fmt, Option.bind_eq_bind, Option.bind_eq_some, Option.pure_def,
        Option.some.injEq] at h
      obtain ⟨body, hbody, rfl⟩ := h
      have hbody : Neutral body.data := Instruction.fmtList_neutral hformats hsubgroup instructions hnames hbody
      intro depth
      simp +decide [String.data_append, braceDepth_append, braceDepth, hbody (depth + 1)]
  | .return, _, _, h | .break, _, _, h | .workgroupBarrier, _, _, h
  | .storageBarrier, _, _, h => by
      cases h
      exact neutral_of_noBraces (by decide)
  | .subgroup op, _, _, h => neutral_of_noBraces (hsubgroup op _ h)

theorem Instruction.fmtList_neutral (hformats : formats.WithoutBraces)
    (hsubgroup : ∀ op text, subgroup op = some text → noBraces text = true) :
    ∀ (instructions : List Instruction) {text : String},
      Instruction.listNamedWithoutBraces instructions = true →
      Instruction.fmtList formats macos subgroup instructions = some text → Neutral text.data
  | [], _, _, h => by cases h; exact fun _ => rfl
  | instruction :: instructions, _, hnames, h => by
      simp only [Instruction.listNamedWithoutBraces, Bool.and_eq_true] at hnames
      simp only [Instruction.fmtList, Option.bind_eq_bind, Option.bind_eq_some, Option.pure_def,
        Option.some.injEq] at h
      obtain ⟨first, hfirst, rest, hrest, rfl⟩ := h
      rw [String.data_append]
      exact (Instruction.fmt_neutral hformats hsubgroup instruction hnames.1 hfirst).append
        (Instruction.fmtList_neutral hformats hsubgroup instructions hnames.2 hrest)

end

end Nested

/-- The body `Display` writes for every instruction tree is well nested: read from the
start, no closing brace closes nothing, and every opening brace is closed at the end. This
holds for every `Formats` and every `Display for Subgroup` that write no brace, and every
tree whose `Named` variables hold none. -/
theorem fmt_well_nested (formats : Formats) (hformats : formats.WithoutBraces) (macos : Bool)
    (subgroup : Subgroup → Option String)
    (hsubgroup : ∀ op text, subgroup op = some text → noBraces text = true)
    (instructions : List Instruction)
    (hnames : Instruction.listNamedWithoutBraces instructions = true) (text : String)
    (h : Instruction.fmtList formats macos subgroup instructions = some text) :
    braceDepth 0 text.data = some 0 :=
  Instruction.fmtList_neutral macos hformats hsubgroup instructions hnames h 0

/-- Formats that write a fixed text for every element and float. -/
def plainFormats : Formats where
  cubeElem _ := "f32"
  f32 _ := "1.0"
  f64 _ := "1.0"

/-- `loop { if l_1_0 { break; } }`. -/
theorem fmt_well_nested_loop :
    Instruction.fmtList plainFormats false (fun _ => none)
        [.loop [.if (.local 0 (.scalar .bool) 1) [.break]]] =
      some "loop \x7b\nif l_1_0 \x7b\nbreak;\n\x7d\n\x7d\n" ∧
    braceDepth 0 "loop \x7b\nif l_1_0 \x7b\nbreak;\n\x7d\n\x7d\n".data = some 0 :=
  ⟨rfl, fmt_well_nested plainFormats ⟨fun _ => rfl, fun _ => rfl, fun _ => rfl⟩ false
    (fun _ => none) (fun _ _ h => by cases h)
    [.loop [.if (.local 0 (.scalar .bool) 1) [.break]]] rfl _ rfl⟩

end CubeCL.Wgsl
