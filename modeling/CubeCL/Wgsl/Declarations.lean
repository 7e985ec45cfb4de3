import CubeCL.Wgsl.Display
import CubeCL.Wgsl.Compiler
import Mathlib.Data.List.Nodup

/-!
# `CubeCL.Wgsl.Declarations`: the shared memories and local arrays a shader declares

`compile_variable` records a shared memory or a local array for declaration the first time
it meets one, and skips any later one whose `index` is already recorded
(`self.shared_memories.iter().any(|s| s.index == id)`). The index is the only thing
compared: not the depth of a local array, nor the item or the length.

* `Keeps inv x`: the compiler step `x` keeps the property `inv` of the compiler state. The
  closure lemmas (`Keeps.bind`, `Keeps.mapM`, `Keeps.foldlM`, …) follow the ways the
  compiler's functions are built, so each function is one lemma.
* `Declared`: no two recorded declarations share an index. Every compiler function keeps
  it (`compileScope_keeps`), so every shader declares each index once
  (`compile_declares_once_per_index`).
* `compile_shader_declares_by_index`: `create_local_array` and `create_shared` number from
  `0` in every scope. In a kernel whose root and child scope each create a local array and
  a shared memory, the child's local array `a_1_0` is used and never declared, and the two
  shared memories are one variable, `shared_memory_0`.
-/

set_option autoImplicit false

namespace CubeCL.Wgsl

/-- A compiler step keeps `inv`: from a state that satisfies it, a step that does not panic
ends in a state that satisfies it. -/
def Keeps {α : Type} (inv : WgslCompiler → Prop) (x : CompileM α) : Prop :=
  ∀ c a c', x.run c = some (a, c') → inv c → inv c'

namespace Keeps

variable {inv : WgslCompiler → Prop} {α β : Type}

/-- `pure` leaves the state alone. -/
theorem pure (a : α) : Keeps inv (Pure.pure a : CompileM α) := by
  intro c b c' h hc
  cases h
  exact hc

/-- A panic ends nothing. -/
theorem failure : Keeps inv (Alternative.failure : CompileM α) := by
  intro c b c' h
  cases h

/-- A sequence keeps what each part keeps. -/
theorem bind {x : CompileM α} {f : α → CompileM β} (hx : Keeps inv x)
    (hf : ∀ a, Keeps inv (f a)) : Keeps inv (x >>= f) := by
  intro c b c' h hc
  rw [StateT.run_bind] at h
  obtain ⟨⟨a, c₁⟩, h₁, h₂⟩ := Option.bind_eq_some.mp h
  exact hf a c₁ b c' h₂ (hx c a c₁ h₁ hc)

/-- A step of the underlying `Option` leaves the state alone. -/
theorem lift (x : Option α) : Keeps inv (StateT.lift x : CompileM α) := by
  intro c a c' h hc
  cases x <;> cases h
  exact hc

/-- Reading the state leaves it alone. -/
theorem get : Keeps inv (MonadState.get : CompileM WgslCompiler) := by
  intro c a c' h hc
  cases h
  exact hc

/-- An update that keeps `inv`. -/
theorem modify {g : WgslCompiler → WgslCompiler} (hg : ∀ c, inv c → inv (g c)) :
    Keeps inv (modify g : CompileM PUnit) := by
  intro c a c' h hc
  cases h
  exact hg c hc

/-- An update with a result that keeps `inv`. -/
theorem modifyGet {g : WgslCompiler → α × WgslCompiler} (hg : ∀ c, inv c → inv (g c).2) :
    Keeps inv (modifyGet g : CompileM α) := by
  intro c a c' h hc
  have hg' : g c = (a, c') := Option.some.inj h
  rw [show c' = (g c).2 by rw [hg']]
  exact hg c hc

/-- `mapM` keeps what each call keeps. -/
theorem mapM {f : α → CompileM β} (hf : ∀ a, Keeps inv (f a)) :
    ∀ l : List α, Keeps inv (l.mapM f)
  | [] => pure []
  | a :: l => by
      rw [List.mapM_cons]
      exact (hf a).bind fun b => (mapM hf l).bind fun bs => pure (b :: bs)

/-- `Option.mapM` keeps what the call keeps. -/
theorem optionMapM {f : α → CompileM β} (hf : ∀ a, Keeps inv (f a)) :
    ∀ o : Option α, Keeps inv (o.mapM f)
  | none => pure none
  | some a => (hf a).bind fun b => pure (some b)

/-- `foldlM` keeps what each turn keeps. -/
theorem foldlM {f : β → α → CompileM β} (hf : ∀ b a, Keeps inv (f b a)) :
    ∀ (l : List α) (init : β), Keeps inv (l.foldlM f init)
  | [], init => pure init
  | a :: l, init => by
      rw [List.foldlM_cons]
      exact (hf init a).bind fun b => foldlM hf l b

end Keeps

/-- No two declarations the compiler has recorded share an index. -/
structure Declared (c : WgslCompiler) : Prop where
  sharedMemories : (c.sharedMemories.map SharedMemory.index).Nodup
  localArrays : (c.localArrays.map LocalArray.index).Nodup

/-- Recording a declaration unless one with its index is recorded keeps the indices
distinct. -/
theorem nodup_record {δ : Type} (index : δ → Nat) {l : List δ} (h : (l.map index).Nodup)
    (x : δ) (hx : ¬ l.any (index · == index x)) : ((l ++ [x]).map index).Nodup := by
  simp only [List.any_eq_true, beq_iff_eq, not_exists, not_and] at hx
  rw [List.map_append, List.nodup_append]
  refine ⟨h, List.nodup_singleton _, fun a ha hb => ?_⟩
  obtain ⟨y, hy, rfl⟩ := List.mem_map.mp ha
  rw [List.map_singleton, List.mem_singleton] at hb
  exact hx y hy hb

/-- Recording a builtin keeps an invariant the flag update keeps. -/
theorem setFlag_keeps {set : WgslCompiler → WgslCompiler}
    (hset : ∀ c, Declared c → Declared (set c)) (var : Variable) :
    Keeps Declared (setFlag set var) :=
  Keeps.modifyGet fun c hc => hset c hc

/-- `compile_variable` keeps the declarations distinct. -/
theorem compileVariable_keeps (var : IR.Variable) : Keeps Declared (compileVariable var) := by
  cases var
  case sharedMemory id item length =>
    refine (Keeps.lift _).bind fun item => (Keeps.modify fun c hc => ?_).bind fun _ =>
      Keeps.pure _
    split_ifs with hany
    · exact hc
    · exact ⟨nodup_record SharedMemory.index hc.1 ⟨id, item, length⟩ hany, hc.2⟩
  case localArray id item depth length =>
    refine (Keeps.lift _).bind fun item => (Keeps.modify fun c hc => ?_).bind fun _ =>
      Keeps.pure _
    split_ifs with hany
    · exact hc
    · exact ⟨hc.1, nodup_record LocalArray.index hc.2 ⟨id, item, depth, length⟩ hany⟩
  case matrix => exact Keeps.failure
  case cubeDimX | cubeDimY | cubeDimZ => exact Keeps.pure _
  case globalInputArray | globalScalar | «local» | slice | localScalar | globalOutputArray
    | constantScalar => exact (Keeps.lift _).bind fun _ => Keeps.pure _
  all_goals exact setFlag_keeps (by exact fun _ hc => ⟨hc.1, hc.2⟩) _

/-- `compile_instruction` keeps the declarations distinct: it compiles two to four
variables and records nothing else. -/
theorem compileInstruction_keeps (op : IR.Operator) :
    Keeps Declared (compileInstruction op) := by
  have hv := compileVariable_keeps
  cases op
  case binary => exact (hv _).bind fun _ => (hv _).bind fun _ => (hv _).bind fun _ => Keeps.pure _
  case unary => exact (hv _).bind fun _ => (hv _).bind fun _ => Keeps.pure _
  all_goals exact (hv _).bind fun _ => (hv _).bind fun _ => (hv _).bind fun _ =>
    (hv _).bind fun _ => Keeps.pure _

/-- `compile_metadata` keeps the declarations distinct: besides its variables it sets the
`stride` or `shape` flag. -/
theorem compileMetadata_keeps (op : IR.Metadata) : Keeps Declared (compileMetadata op) := by
  have hv := compileVariable_keeps
  cases op
  case length => exact (hv _).bind fun _ => (hv _).bind fun _ => Keeps.pure _
  all_goals exact (Keeps.modify fun c hc => ⟨hc.1, hc.2⟩).bind fun _ => Keeps.get.bind fun _ =>
    (Keeps.lift _).bind fun _ => (hv _).bind fun _ => (hv _).bind fun _ => Keeps.pure _

/-- `compile_subgroup` keeps the declarations distinct. -/
theorem compileSubgroup_keeps (op : IR.Subcube) : Keeps Declared (compileSubgroup op) := by
  have hv := compileVariable_keeps
  cases op
  case elect => exact (hv _).bind fun _ => Keeps.pure _
  case reduce => exact (hv _).bind fun _ => (hv _).bind fun _ => Keeps.pure _
  case broadcast => exact (hv _).bind fun _ => (hv _).bind fun _ => (hv _).bind fun _ => Keeps.pure _

section Scope

variable {optimize : IR.ScopeProcessing → IR.ScopeProcessing}
  {expand : IR.Procedure → IR.Scope → IR.Scope}
  {compileScope : IR.Scope → CompileM (List Instruction × IR.Scope)}

/-- `compile_branch` keeps the declarations distinct when compiling its scopes does. -/
theorem compileBranch_keeps (hscope : ∀ scope, Keeps Declared (compileScope scope))
    (instructions : List Instruction) (branch : IR.Branch) :
    Keeps Declared (compileBranch compileScope instructions branch) := by
  have hv := compileVariable_keeps
  cases branch
  case «if» => exact (hv _).bind fun _ => (hscope _).bind fun ⟨_, _⟩ => Keeps.pure _
  case ifElse => exact (hv _).bind fun _ => (hscope _).bind fun ⟨_, _⟩ =>
    (hscope _).bind fun ⟨_, _⟩ => Keeps.pure _
  case rangeLoop => exact (hv _).bind fun _ => (hv _).bind fun _ => (hv _).bind fun _ =>
    (Keeps.optionMapM hv _).bind fun _ => (hscope _).bind fun ⟨_, _⟩ => Keeps.pure _
  case «loop» => exact (hscope _).bind fun ⟨_, _⟩ => Keeps.pure _
  all_goals exact Keeps.pure _

/-- `compile_operation` keeps the declarations distinct when compiling a scope does. -/
theorem compileOperation_keeps (hscope : ∀ scope, Keeps Declared (compileScope scope))
    (acc : List Instruction × IR.Scope) (op : IR.Operation) :
    Keeps Declared (compileOperation expand compileScope acc op) := by
  cases op
  case operator => exact (compileInstruction_keeps _).bind fun _ => Keeps.pure _
  case procedure => exact (hscope _).bind fun ⟨_, _⟩ => Keeps.pure _
  case metadata => exact (compileMetadata_keeps _).bind fun _ => Keeps.pure _
  case branch => exact (compileBranch_keeps hscope _ _).bind fun _ => Keeps.pure _
  case synchronization => exact Keeps.pure _
  case subcube => exact (compileSubgroup_keeps _).bind fun _ => Keeps.pure _
  case coopMma => exact Keeps.failure

/-- The declarations of a scope's variables keep the declarations distinct. -/
theorem compileDeclarations_keeps (vars : List IR.Variable) :
    Keeps Declared (compileDeclarations vars) :=
  Keeps.mapM (fun _ => (compileVariable_keeps _).bind fun _ => Keeps.pure _) _

/-- The run lemma: `compile_scope`, with the scopes nested in it and the procedures
expanded into it, keeps the declarations distinct. -/
theorem compileScope_keeps :
    ∀ (fuel : Nat) (scope : IR.Scope), Keeps Declared (Wgsl.compileScope optimize expand fuel scope)
  | 0, _ => Keeps.failure
  | fuel + 1, _ => (Keeps.lift _).bind fun ⟨_, _⟩ => (compileDeclarations_keeps _).bind fun _ =>
      Keeps.foldlM (compileOperation_keeps (compileScope_keeps fuel)) _ _

/-- `compile_shader` hands out the declarations recorded by compiling the body: the run of
`compile_scope` it makes, from the compiler with the binding counts set, ends in the state
whose lists the shader holds. -/
theorem compileShader_declarations {macos : Bool} {fuel : Nat} {value : KernelDefinition}
    {c₀ c' : WgslCompiler} {shader : ComputeShader}
    (h : (compileShader optimize expand macos fuel value).run c₀ = some (shader, c')) :
    ∃ r, (Wgsl.compileScope optimize expand fuel value.body).run
        { c₀ with numInputs := value.inputs.length, numOutputs := value.outputs.length } =
        some (r, c') ∧
      shader.sharedMemories = c'.sharedMemories ∧ shader.localArrays = c'.localArrays := by
  simp only [compileShader, StateT.run_bind, StateT.run_modify, StateT.run_get, StateT.run_lift,
    StateT.run_pure, Option.bind_eq_bind, Option.bind_eq_some, Option.pure_def,
    Option.some.injEq, exists_eq_left'] at h
  obtain ⟨⟨r, c₂⟩, hscope, _, ⟨_, _, rfl⟩, _, ⟨_, _, rfl⟩, _, ⟨_, _, rfl⟩, h⟩ := h
  cases h
  exact ⟨r, hscope, rfl, rfl⟩

end Scope

/-- Every shader the compiler produces declares each shared-memory index and each
local-array index once, whatever the kernel. Two local arrays that share an id and not a
depth, or two shared memories created in different scopes, can never both be declared. -/
theorem compile_declares_once_per_index (optimize : IR.ScopeProcessing → IR.ScopeProcessing)
    (expand : IR.Procedure → IR.Scope → IR.Scope) (macos : Bool) (fuel : Nat)
    (kernel : KernelDefinition) (shader : ComputeShader)
    (h : compile optimize expand macos fuel kernel = some shader) :
    (shader.sharedMemories.map SharedMemory.index).Nodup ∧
      (shader.localArrays.map LocalArray.index).Nodup := by
  obtain ⟨⟨_, c'⟩, hrun, rfl⟩ := Option.map_eq_some'.mp h
  obtain ⟨r, hscope, hshared, hlocal⟩ := compileShader_declarations hrun
  have hdeclared := compileScope_keeps fuel kernel.body _ r c' hscope ⟨List.nodup_nil, List.nodup_nil⟩
  rw [hshared, hlocal]
  exact ⟨hdeclared.1, hdeclared.2⟩

/-! ### A kernel whose declarations collide -/

/-- `array[0] = 1`, the `IndexAssign` of a `u32` store into an array. -/
def storeOne (array : IR.Variable) : IR.Operation :=
  .operator (.binary .indexAssign
    ⟨.constantScalar (.uint 0), .constantScalar (.uint 1), array⟩)

/-- A root scope that creates a local array and a shared memory of four `u32` and stores
into each. -/
def collidingRoot : IR.Scope :=
  let (array, s) := IR.Scope.root.createLocalArray (IR.Item.new .uint) 4
  let (shared, s) := s.createShared (IR.Item.new .uint) 4
  (s.register (storeOne array)).register (storeOne shared)

/-- A child of `collidingRoot` that does the same in its own scope. -/
def collidingChild : IR.Scope :=
  let (array, s) := collidingRoot.child.createLocalArray (IR.Item.new .uint) 4
  let (shared, s) := s.createShared (IR.Item.new .uint) 4
  (s.register (storeOne array)).register (storeOne shared)

/-- The kernel of `collidingRoot` with `collidingChild` as the scope of an `if`. -/
def collidingKernel : KernelDefinition where
  inputs := []
  outputs := []
  named := []
  cubeDim := ⟨1, 1, 1⟩
  body := collidingRoot.register (.branch (.if (.constantScalar (.bool true)) collidingChild))

section Colliding

variable {optimize : IR.ScopeProcessing → IR.ScopeProcessing}
  (expand : IR.Procedure → IR.Scope → IR.Scope)

/-- Compiling `collidingKernel` depends on `optimize` only through the two processed
scopes; where it leaves them as they are, it compiles as with the identity. -/
theorem compile_collidingKernel_eq (macos : Bool)
    (hroot : optimize ⟨[], collidingKernel.body.operations⟩ =
      ⟨[], collidingKernel.body.operations⟩)
    (hchild : optimize ⟨[], collidingChild.operations⟩ = ⟨[], collidingChild.operations⟩) :
    compile optimize expand macos 3 collidingKernel = compile id expand macos 3 collidingKernel := by
  have hprocess : ∀ (s : IR.Scope), optimize ⟨[], s.operations⟩ = ⟨[], s.operations⟩ →
      s.processing = some (⟨[], s.operations⟩, s.drained) →
      s.process optimize = s.process id := fun s hopt hp => by
    simp only [IR.Scope.process, hp, Option.map_some', hopt, id]
  have hchildEq : Wgsl.compileScope optimize expand 2 collidingChild =
      Wgsl.compileScope id expand 2 collidingChild := by
    simp only [Wgsl.compileScope, hprocess collidingChild hchild rfl]
    rfl
  have hrootEq : Wgsl.compileScope optimize expand 3 collidingKernel.body =
      Wgsl.compileScope id expand 3 collidingKernel.body := by
    have hp : collidingKernel.body.processing =
        some (⟨[], collidingKernel.body.operations⟩, collidingKernel.body.drained) := rfl
    have hid : collidingKernel.body.process id =
        some (⟨[], collidingKernel.body.operations⟩, collidingKernel.body.drained) := by
      simp only [IR.Scope.process, hp, Option.map_some', id]
    rw [compileScope_of_process 2 (hprocess _ hroot hp ▸ hid), compileScope_of_process 2 hid]
    have hops : collidingKernel.body.operations = [storeOne (.localArray 0 (IR.Item.new .uint) 0 4),
        storeOne (.sharedMemory 0 (IR.Item.new .uint) 4),
        .branch (.if (.constantScalar (.bool true)) collidingChild)] := rfl
    simp only [hops, storeOne, List.foldlM_cons, List.foldlM_nil, compileOperation, compileBranch,
      hchildEq]
  simp only [compile, compileShader, hrootEq]

/-- What `storeOne` compiles to. -/
def storeOneCompiled (array : Variable) : Instruction :=
  .binary .indexAssign (.constantScalar (.uint 0) .u32) (.constantScalar (.uint 1) .u32) array

/-- The declarations of `collidingKernel`. Its root and its child each create a local array
and a shared memory, and `create_local_array` and `create_shared` number them from `0` in
each scope. The child's local array `a_1_0` is referenced and never declared, since its
index is the root's. The two `create_shared` calls return one variable, `shared_memory_0`,
declared once. This holds for every `expand`, every platform, every `Formats`, and every
`ScopeProcessing::optimize` that leaves the two processed scopes, which have no variables,
as they are. -/
theorem compile_shader_declares_by_index (formats : Formats) (macos : Bool)
    (hroot : optimize ⟨[], collidingKernel.body.operations⟩ =
      ⟨[], collidingKernel.body.operations⟩)
    (hchild : optimize ⟨[], collidingChild.operations⟩ = ⟨[], collidingChild.operations⟩) :
    (collidingRoot.child.createLocalArray (IR.Item.new .uint) 4).1 =
        .localArray 0 (IR.Item.new .uint) 1 4 ∧
      ((collidingRoot.child.createLocalArray (IR.Item.new .uint) 4).2.createShared
          (IR.Item.new .uint) 4).1 =
        ((IR.Scope.root.createLocalArray (IR.Item.new .uint) 4).2.createShared
          (IR.Item.new .uint) 4).1 ∧
      ∃ shader, compile optimize expand macos 3 collidingKernel = some shader ∧
        shader.localArrays = [⟨0, .scalar .u32, 0, 4⟩] ∧
        shader.sharedMemories = [⟨0, .scalar .u32, 4⟩] ∧
        shader.body.instructions = [storeOneCompiled (.localArray 0 (.scalar .u32) 0 4),
          storeOneCompiled (.sharedMemory 0 (.scalar .u32) 4),
          .if (.constantScalar (.bool true) .bool)
            [storeOneCompiled (.localArray 0 (.scalar .u32) 1 4),
              storeOneCompiled (.sharedMemory 0 (.scalar .u32) 4)]] ∧
        (Variable.localArray 0 (.scalar .u32) 0 4).fmt formats = some "a_0_0" ∧
        (Variable.localArray 0 (.scalar .u32) 1 4).fmt formats = some "a_1_0" ∧
        (Variable.sharedMemory 0 (.scalar .u32) 4).fmt formats = some "shared_memory_0" := by
  refine ⟨rfl, rfl, ?_⟩
  rw [compile_collidingKernel_eq expand macos hroot hchild]
  exact ⟨_, rfl, rfl, rfl, rfl, rfl, rfl, rfl⟩

end Colliding

/-- With the identity for `optimize`, on the Linux platform. -/
theorem compile_shader_declares_by_index_unoptimized :
    (collidingRoot.child.createLocalArray (IR.Item.new .uint) 4).1 =
        .localArray 0 (IR.Item.new .uint) 1 4 ∧
      ((collidingRoot.child.createLocalArray (IR.Item.new .uint) 4).2.createShared
          (IR.Item.new .uint) 4).1 =
        ((IR.Scope.root.createLocalArray (IR.Item.new .uint) 4).2.createShared
          (IR.Item.new .uint) 4).1 ∧
      ∃ shader, compile id (fun _ scope => scope) false 3 collidingKernel = some shader ∧
        shader.localArrays = [⟨0, .scalar .u32, 0, 4⟩] ∧
        shader.sharedMemories = [⟨0, .scalar .u32, 4⟩] ∧
        shader.body.instructions = [storeOneCompiled (.localArray 0 (.scalar .u32) 0 4),
          storeOneCompiled (.sharedMemory 0 (.scalar .u32) 4),
          .if (.constantScalar (.bool true) .bool)
            [storeOneCompiled (.localArray 0 (.scalar .u32) 1 4),
              storeOneCompiled (.sharedMemory 0 (.scalar .u32) 4)]] ∧
        (Variable.localArray 0 (.scalar .u32) 0 4).fmt ⟨fun _ => "", fun _ => "", fun _ => ""⟩ =
          some "a_0_0" ∧
        (Variable.localArray 0 (.scalar .u32) 1 4).fmt ⟨fun _ => "", fun _ => "", fun _ => ""⟩ =
          some "a_1_0" ∧
        (Variable.sharedMemory 0 (.scalar .u32) 4).fmt ⟨fun _ => "", fun _ => "", fun _ => ""⟩ =
          some "shared_memory_0" :=
  compile_shader_declares_by_index (fun _ scope => scope) ⟨fun _ => "", fun _ => "", fun _ => ""⟩
    false rfl rfl

/-- The shader of `collidingKernel` declares each index once. -/
theorem compile_declares_once_per_index_colliding :
    ∃ shader, compile id (fun _ scope => scope) false 3 collidingKernel = some shader ∧
      (shader.sharedMemories.map SharedMemory.index).Nodup ∧
      (shader.localArrays.map LocalArray.index).Nodup :=
  ⟨_, rfl, compile_declares_once_per_index id (fun _ scope => scope) false 3 collidingKernel _ rfl⟩

end CubeCL.Wgsl
