import CubeCL.Wgsl.Compiler
import Mathlib.Data.List.Nodup

/-!
# `CubeCL.Wgsl.Extensions`: what `register_extensions` collects

The rendered shader calls a helper function for three instructions (`Display for
Instruction`): `Powf` calls `powf_scalar` when its exponent is always a scalar and
`powf_primitive` otherwise, `Erf` calls `erf`, and `Tanh` calls `safe_tanh` on macOS. A
shader needs, for each `Powf`, `PowfPrimitive` and `PowfScalar` or `Powf` at the item of
its output; for each `Erf`, `Erf` at the item of its input; and on macOS, for each `Tanh`,
`SafeTanh` at the item of its input (`Instruction.helpers`). It needs them for the
instructions anywhere in the body, nested in any compound instruction
(`requiredExtensions`).

`register_extensions` descends into `If` only. Its result is the deduplicating fold of
the helpers of the instructions it reaches (`registerExtensions_eq`): it lists each of them
once (`registerExtensions_nodup`), and nothing more (`mem_registerExtensions`). A helper
needed inside an `IfElse`, a `Loop` or a `RangeLoop` is missing unless the same helper
also appears where the scan reaches.

* `registerExtensions_eq`, `registerExtensions_nodup`, `mem_registerExtensions`.
* `register_extensions_misses_loop`: a `Powf` inside a `Loop` gets no helper.
-/

set_option autoImplicit false

namespace CubeCL.Wgsl

/-- The helpers the text of one instruction needs, not counting the instructions nested
in it. -/
def Instruction.helpers (macos : Bool) : Instruction → List Extension
  | .binary .powf _ rhs out =>
      [.powfPrimitive out.item, if rhs.isAlwaysScalar then .powfScalar out.item
        else .powf out.item]
  | .unary .erf input _ => [.erf input.item]
  | .unary .tanh input _ => if macos then [.safeTanh input.item] else []
  | _ => []

mutual

/-- The helpers of the instructions the scan of `register_extensions` reaches from one
instruction: itself and, through an `If`, the instructions of its block. -/
def Instruction.scannedHelpers (macos : Bool) : Instruction → List Extension
  | .if _ instructions => scannedHelpersList macos instructions
  | instruction => instruction.helpers macos

/-- `Instruction.scannedHelpers` over a list, in order. -/
def scannedHelpersList (macos : Bool) : List Instruction → List Extension
  | [] => []
  | instruction :: instructions =>
      instruction.scannedHelpers macos ++ scannedHelpersList macos instructions

end

mutual

/-- The helpers an instruction needs, its own and those of every instruction nested in it,
in any compound instruction. -/
def Instruction.requiredHelpers (macos : Bool) : Instruction → List Extension
  | .if _ instructions => requiredExtensions macos instructions
  | .ifElse _ instructionsIf instructionsElse =>
      requiredExtensions macos instructionsIf ++ requiredExtensions macos instructionsElse
  | .rangeLoop _ _ _ _ instructions => requiredExtensions macos instructions
  | .loop instructions => requiredExtensions macos instructions
  | instruction => instruction.helpers macos

/-- The helpers a body needs: those of every instruction anywhere in it. -/
def requiredExtensions (macos : Bool) : List Instruction → List Extension
  | [] => []
  | instruction :: instructions =>
      instruction.requiredHelpers macos ++ requiredExtensions macos instructions

end

section Fold

/-- Registering an extension already listed changes nothing. -/
theorem registerExtension_of_mem {extensions : List Extension} {e : Extension}
    (h : e ∈ extensions) : registerExtension extensions e = extensions := by
  simp [registerExtension, h]

/-- Registering a new extension appends it. -/
theorem registerExtension_of_not_mem {extensions : List Extension} {e : Extension}
    (h : e ∉ extensions) : registerExtension extensions e = extensions ++ [e] := by
  simp [registerExtension, h]

/-- After a registration the list holds what it held and the extension. -/
theorem mem_registerExtension (extensions : List Extension) (e x : Extension) :
    x ∈ registerExtension extensions e ↔ x ∈ extensions ∨ x = e := by
  unfold registerExtension
  split
  next h => exact ⟨.inl, fun hx => hx.elim id fun hx => hx ▸ List.elem_iff.mp h⟩
  · simp

/-- Registration keeps the list free of duplicates. -/
theorem nodup_registerExtension {extensions : List Extension} (h : extensions.Nodup)
    (e : Extension) : (registerExtension extensions e).Nodup := by
  by_cases he : e ∈ extensions
  · rw [registerExtension_of_mem he]
    exact h
  · rw [registerExtension_of_not_mem he]
    exact h.append (List.nodup_singleton e) (List.disjoint_singleton.mpr he)

/-- Registering a list of extensions adds exactly its members. -/
theorem mem_foldl_registerExtension (l extensions : List Extension) (x : Extension) :
    x ∈ l.foldl registerExtension extensions ↔ x ∈ extensions ∨ x ∈ l := by
  induction l generalizing extensions with
  | nil => simp
  | cons e l ih => simp only [List.foldl_cons, ih, mem_registerExtension, List.mem_cons, or_assoc]

/-- Registering a list of extensions keeps the list free of duplicates. -/
theorem nodup_foldl_registerExtension (l : List Extension) {extensions : List Extension}
    (h : extensions.Nodup) : (l.foldl registerExtension extensions).Nodup := by
  induction l generalizing extensions with
  | nil => exact h
  | cons e l ih => exact ih (nodup_registerExtension h e)

/-- Registering what a fold collected from `b` is folding straight from where the fold of
`b` leaves `extensions`. -/
theorem foldl_registerExtension_foldl (l : List Extension) :
    ∀ b extensions : List Extension,
      (l.foldl registerExtension b).foldl registerExtension extensions =
        l.foldl registerExtension (b.foldl registerExtension extensions) := by
  induction l with
  | nil => intro b extensions; rfl
  | cons e l ih =>
      intro b extensions
      rw [List.foldl_cons, List.foldl_cons, ih]
      congr 1
      by_cases he : e ∈ b
      · rw [registerExtension_of_mem he, registerExtension_of_mem
          ((mem_foldl_registerExtension _ _ _).mpr (.inr he))]
      · rw [registerExtension_of_not_mem he, List.foldl_append]
        rfl

end Fold

/-- The scan of one instruction other than `If` folds its own helpers. -/
theorem registerInstruction_of_ne_if (macos : Bool) (extensions : List Extension)
    (instruction : Instruction) (hif : ∀ cond instructions, instruction ≠ .if cond instructions) :
    registerInstruction macos extensions instruction =
      (instruction.helpers macos).foldl registerExtension extensions := by
  cases instruction with
  | «if» cond instructions => exact absurd rfl (hif cond instructions)
  | binary kind lhs rhs out =>
      cases kind <;> try rfl
      simp only [registerInstruction, Instruction.helpers]
      split <;> rfl
  | unary kind input out =>
      cases kind <;> try rfl
      cases macos <;> rfl
  | _ => rfl

mutual

/-- The scan of one instruction is the deduplicating fold of the helpers it reaches. -/
theorem registerInstruction_eq (macos : Bool) (extensions : List Extension)
    (instruction : Instruction) :
    registerInstruction macos extensions instruction =
      (instruction.scannedHelpers macos).foldl registerExtension extensions := by
  cases instruction with
  | «if» cond instructions =>
      rw [registerInstruction, registerExtensionsFrom_eq macos [] instructions,
        foldl_registerExtension_foldl]
      rfl
  | _ =>
      refine (registerInstruction_of_ne_if macos extensions _ ?_).trans rfl
      intro _ _ h
      cases h

/-- The scan of a list folds the helpers it reaches, in order. -/
theorem registerExtensionsFrom_eq (macos : Bool) :
    ∀ (extensions : List Extension) (instructions : List Instruction),
      registerExtensionsFrom macos extensions instructions =
        (scannedHelpersList macos instructions).foldl registerExtension extensions
  | extensions, [] => rfl
  | extensions, instruction :: instructions => by
      rw [registerExtensionsFrom, registerExtensionsFrom_eq macos _ instructions,
        registerInstruction_eq macos extensions instruction, scannedHelpersList,
        List.foldl_append]

end

/-- `register_extensions` is the deduplicating fold of the helpers of the instructions it
reaches: the top-level ones and, through `If`, those of its blocks. -/
theorem registerExtensions_eq (macos : Bool) (instructions : List Instruction) :
    registerExtensions macos instructions =
      (scannedHelpersList macos instructions).foldl registerExtension [] :=
  registerExtensionsFrom_eq macos [] instructions

/-- `register_extensions` lists no helper twice. -/
theorem registerExtensions_nodup (macos : Bool) (instructions : List Instruction) :
    (registerExtensions macos instructions).Nodup := by
  rw [registerExtensions_eq]
  exact nodup_foldl_registerExtension _ List.nodup_nil

/-- `register_extensions` lists exactly the helpers of the instructions it reaches. -/
theorem mem_registerExtensions (macos : Bool) (instructions : List Instruction)
    (x : Extension) :
    x ∈ registerExtensions macos instructions ↔ x ∈ scannedHelpersList macos instructions := by
  rw [registerExtensions_eq, mem_foldl_registerExtension]
  simp

/-- `register_extensions` lists each helper of the instructions it reaches once, and
nothing else. -/
theorem register_extensions_exactly_scanned (macos : Bool) (instructions : List Instruction) :
    (registerExtensions macos instructions).Nodup ∧
      ∀ x, x ∈ registerExtensions macos instructions ↔
        x ∈ scannedHelpersList macos instructions :=
  ⟨registerExtensions_nodup macos instructions, mem_registerExtensions macos instructions⟩

/-- `out = powf(lhs, rhs)` over two `f32` input arrays into an `f32` output array. -/
def powfOperation : IR.Operation :=
  .operator (.binary .powf ⟨.globalInputArray 0 (IR.Item.new (.float .f32)),
    .globalInputArray 1 (IR.Item.new (.float .f32)),
    .globalOutputArray 0 (IR.Item.new (.float .f32))⟩)

/-- A kernel whose body is one `Loop` around that `Powf`. -/
def powfInLoopKernel : KernelDefinition where
  inputs := []
  outputs := []
  named := []
  cubeDim := ⟨1, 1, 1⟩
  body := IR.Scope.root.register (.branch (.loop (IR.Scope.root.child.register powfOperation)))

/-- The kernel with a `Powf` inside a `Loop` compiles to a shader that calls
`powf_primitive` and needs `PowfPrimitive` and `Powf`, but `register_extensions` gives it
no extension at all. This holds for every `expand`, every platform, and every
`ScopeProcessing::optimize` that leaves the two processed scopes, which have no variables,
as they are. -/
theorem register_extensions_misses_loop (optimize : IR.ScopeProcessing → IR.ScopeProcessing)
    (expand : IR.Procedure → IR.Scope → IR.Scope) (macos : Bool)
    (hroot : optimize ⟨[], [.branch (.loop (IR.Scope.root.child.register powfOperation))]⟩ =
      ⟨[], [.branch (.loop (IR.Scope.root.child.register powfOperation))]⟩)
    (hloop : optimize ⟨[], [powfOperation]⟩ = ⟨[], [powfOperation]⟩) :
    ∃ shader, compile optimize expand macos 3 powfInLoopKernel = some shader ∧
      shader.extensions = [] ∧
      requiredExtensions macos shader.body.instructions =
        [.powfPrimitive (.scalar .f32), .powf (.scalar .f32)] := by
  have hbody : powfInLoopKernel.body.process optimize = some
      (⟨[], [.branch (.loop (IR.Scope.root.child.register powfOperation))]⟩,
        powfInLoopKernel.body.drained) := by
    simp only [IR.Scope.process, show powfInLoopKernel.body.processing = some
      (⟨[], [.branch (.loop (IR.Scope.root.child.register powfOperation))]⟩,
        powfInLoopKernel.body.drained) from rfl, Option.map_some', hroot]
  have hloopBody : (IR.Scope.root.child.register powfOperation).process optimize = some
      (⟨[], [powfOperation]⟩, (IR.Scope.root.child.register powfOperation).drained) := by
    simp only [IR.Scope.process, show (IR.Scope.root.child.register powfOperation).processing = some
      (⟨[], [powfOperation]⟩, (IR.Scope.root.child.register powfOperation).drained) from rfl,
      Option.map_some', hloop]
  have hloopCompiled : compileScope optimize expand 2 (IR.Scope.root.child.register powfOperation)
      = pure ([.binary .powf (.globalInputArray 0 (.scalar .f32))
          (.globalInputArray 1 (.scalar .f32)) (.globalOutputArray 0 (.scalar .f32))],
        (IR.Scope.root.child.register powfOperation).drained) := by
    rw [compileScope_of_process 1 hloopBody]
    rfl
  have hcompiled : compileScope optimize expand 3 powfInLoopKernel.body = pure
      ([.loop [.binary .powf (.globalInputArray 0 (.scalar .f32))
          (.globalInputArray 1 (.scalar .f32)) (.globalOutputArray 0 (.scalar .f32))]],
        powfInLoopKernel.body.drained) := by
    rw [compileScope_of_process 2 hbody]
    simp only [List.foldlM_cons, List.foldlM_nil, compileOperation, compileBranch, hloopCompiled]
    rfl
  exact ⟨_, by simp only [compile, compileShader, hcompiled]; rfl, by rfl, by rfl⟩

/-- With the identity for `optimize`, the missing helpers on either platform. -/
theorem register_extensions_misses_loop_unoptimized :
    ∃ shader, compile id (fun _ scope => scope) false 3 powfInLoopKernel = some shader ∧
      shader.extensions = [] ∧
      requiredExtensions false shader.body.instructions =
        [.powfPrimitive (.scalar .f32), .powf (.scalar .f32)] :=
  register_extensions_misses_loop id (fun _ scope => scope) false rfl rfl

end CubeCL.Wgsl
