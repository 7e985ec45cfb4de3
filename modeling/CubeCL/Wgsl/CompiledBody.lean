import CubeCL.Wgsl.Render
import CubeCL.Wgsl.Compiler

/-!
# `CubeCL.Wgsl.CompiledBody`: every compiled body is written with well-nested braces

`Display for Instruction` writes a `Named` variable by its name, so a body's braces are
well nested only when no such name holds one (`Instruction.fmtList_neutral`). The WGSL
compiler never makes a `Named` variable: `compile_variable` turns each IR variable into
the WGSL variable of its own kind, and `Named` appears only inside `Display`, for the
pointer and the offset of a slice (`instructions.rs:367-376`, `541-550`). So the body of
every shader `compile` produces is written with well-nested braces, whatever the kernel,
the procedures expanded into it and the fuel.

* `Yields p x`: every result of the compiler step `x` satisfies `p`, from every state. Its
  closure lemmas follow the ways the compiler's functions are built, as `Keeps`
  (`CubeCL.Wgsl.Declarations`) does for the compiler's state.
* `compileVariable_yields` … `compileOperation_yields`: one lemma per function of
  `compiler.rs`; `compileScope_yields` assembles them by induction on the fuel, one unit
  per nested scope or expanded procedure.
* `compile_well_nested`: the body text of every compiled shader is well nested.
-/

set_option autoImplicit false

namespace CubeCL.Wgsl

/-- Every result of the compiler step `x` satisfies `p`, from every state it runs in. -/
def Yields {α : Type} (p : α → Prop) (x : CompileM α) : Prop :=
  ∀ c a c', x.run c = some (a, c') → p a

namespace Yields

variable {α β : Type} {p : α → Prop} {q : β → Prop}

theorem pure {a : α} (ha : p a) : Yields p (Pure.pure a : CompileM α) := by
  intro c b c' h
  cases h
  exact ha

theorem imp {x : CompileM α} (hx : Yields p x) {p' : α → Prop} (h : ∀ a, p a → p' a) :
    Yields p' x :=
  fun c a c' hrun => h a (hx c a c' hrun)

/-- A panic yields nothing. -/
theorem failure : Yields p (Alternative.failure : CompileM α) := by
  intro c b c' h
  cases h

/-- A sequence yields what its second part yields from every result of the first. -/
theorem bind {x : CompileM α} {f : α → CompileM β} (hx : Yields p x)
    (hf : ∀ a, p a → Yields q (f a)) : Yields q (x >>= f) := by
  intro c b c' h
  rw [StateT.run_bind] at h
  obtain ⟨⟨a, c₁⟩, h₁, h₂⟩ := Option.bind_eq_some.mp h
  exact hf a (hx c a c₁ h₁) c₁ b c' h₂

/-- A sequence whose first result is not asked about. -/
theorem bind_any {x : CompileM α} {f : α → CompileM β} (hf : ∀ a, Yields q (f a)) :
    Yields q (x >>= f) := by
  intro c b c' h
  rw [StateT.run_bind] at h
  obtain ⟨⟨a, c₁⟩, -, h₂⟩ := Option.bind_eq_some.mp h
  exact hf a c₁ b c' h₂

/-- An update with a result. -/
theorem modifyGet {g : WgslCompiler → α × WgslCompiler} (hg : ∀ c, p (g c).1) :
    Yields p (modifyGet g : CompileM α) := by
  intro c a c' h
  have hg' : g c = (a, c') := Option.some.inj h
  rw [show a = (g c).1 by rw [hg']]
  exact hg c

/-- `mapM` yields lists of what each call yields. -/
theorem mapM {f : α → CompileM β} (hf : ∀ a, Yields q (f a)) :
    ∀ l : List α, Yields (fun bs => ∀ b ∈ bs, q b) (l.mapM f)
  | [] => pure fun _ h => nomatch h
  | a :: l => by
      rw [List.mapM_cons]
      exact (hf a).bind fun b hb => (mapM hf l).bind fun bs hbs =>
        pure (List.forall_mem_cons.mpr ⟨hb, hbs⟩)

/-- `foldlM` yields an invariant of its accumulator that each turn keeps. -/
theorem foldlM {f : β → α → CompileM β} (hf : ∀ b a, q b → Yields q (f b a)) :
    ∀ (l : List α) (init : β), q init → Yields q (l.foldlM f init)
  | [], _, hinit => pure hinit
  | a :: l, init, hinit => by
      rw [List.foldlM_cons]
      exact (hf init a hinit).bind fun b hb => foldlM hf l b hb

end Yields

/-! ### No name in a compiled body -/

/-- A body whose `Named` variables hold no brace, instruction by instruction. -/
theorem listNamedWithoutBraces_eq_all :
    ∀ instructions : List Instruction,
      Instruction.listNamedWithoutBraces instructions = instructions.all Instruction.namedWithoutBraces
  | [] => rfl
  | _ :: instructions => by
      simp only [Instruction.listNamedWithoutBraces, List.all_cons,
        listNamedWithoutBraces_eq_all instructions]

/-- What a compiled body is: instructions whose `Named` variables hold no brace. -/
def BodyNamed (instructions : List Instruction) : Prop :=
  instructions.all Instruction.namedWithoutBraces = true

theorem BodyNamed.append_single {instructions : List Instruction} {instruction : Instruction}
    (h : BodyNamed instructions) (hi : instruction.namedWithoutBraces = true) :
    BodyNamed (instructions ++ [instruction]) := by
  unfold BodyNamed at h ⊢
  simp only [List.all_append, List.all_cons, List.all_nil, h, hi, Bool.and_self]

theorem BodyNamed.listNamed {instructions : List Instruction} (h : BodyNamed instructions) :
    Instruction.listNamedWithoutBraces instructions = true :=
  (listNamedWithoutBraces_eq_all instructions).trans h

/-- `compile_variable` never makes a `Named` variable. -/
theorem compileVariable_yields (var : IR.Variable) :
    Yields (fun v : Variable => v.namedWithoutBraces = true) (compileVariable var) := by
  cases var
  case sharedMemory | localArray =>
    exact Yields.bind_any fun _ => Yields.bind_any fun _ => Yields.pure rfl
  case globalInputArray | globalScalar | «local» | slice | localScalar | globalOutputArray
    | constantScalar => exact Yields.bind_any fun _ => Yields.pure rfl
  case cubeDimX | cubeDimY | cubeDimZ | subcubeDim => exact Yields.pure rfl
  case matrix => exact Yields.failure
  all_goals exact Yields.modifyGet fun _ => rfl

section Compile

variable {optimize : IR.ScopeProcessing → IR.ScopeProcessing}
  {expand : IR.Procedure → IR.Scope → IR.Scope}

theorem compileInstruction_yields (op : IR.Operator) :
    Yields (fun i : Instruction => i.namedWithoutBraces = true) (compileInstruction op) := by
  have hv := compileVariable_yields
  cases op
  case binary =>
    exact (hv _).bind fun _ h₁ => (hv _).bind fun _ h₂ => (hv _).bind fun _ h₃ =>
      Yields.pure (by simp [Instruction.namedWithoutBraces, h₁, h₂, h₃])
  case unary =>
    exact (hv _).bind fun _ h₁ => (hv _).bind fun _ h₂ =>
      Yields.pure (by simp [Instruction.namedWithoutBraces, h₁, h₂])
  all_goals exact (hv _).bind fun _ h₁ => (hv _).bind fun _ h₂ => (hv _).bind fun _ h₃ =>
    (hv _).bind fun _ h₄ => Yields.pure (by simp [Instruction.namedWithoutBraces, h₁, h₂, h₃, h₄])

theorem compileMetadata_yields (op : IR.Metadata) :
    Yields (fun i : Instruction => i.namedWithoutBraces = true) (compileMetadata op) := by
  have hv := compileVariable_yields
  cases op
  case length =>
    exact (hv _).bind fun _ h₁ => (hv _).bind fun _ h₂ =>
      Yields.pure (by simp [Instruction.namedWithoutBraces, h₁, h₂])
  all_goals exact Yields.bind_any fun _ => Yields.bind_any fun _ => Yields.bind_any fun _ =>
    (hv _).bind fun _ h₁ => (hv _).bind fun _ h₂ =>
      Yields.pure (by simp [Instruction.namedWithoutBraces, h₁, h₂])

theorem compileSubgroup_yields (op : IR.Subcube) :
    Yields (fun i : Instruction => i.namedWithoutBraces = true) (compileSubgroup op) := by
  cases op
  case elect => exact Yields.bind_any fun _ => Yields.pure rfl
  case reduce => exact Yields.bind_any fun _ => Yields.bind_any fun _ => Yields.pure rfl
  case broadcast =>
    exact Yields.bind_any fun _ => Yields.bind_any fun _ => Yields.bind_any fun _ =>
      Yields.pure rfl

/-- The declarations of a scope's variables. -/
theorem compileDeclarations_yields (vars : List IR.Variable) :
    Yields BodyNamed (compileDeclarations vars) := by
  have hdeclare (var : IR.Variable) :
      Yields (fun i : Instruction => i.namedWithoutBraces = true)
        (return .declareVariable (← compileVariable var)) :=
    (compileVariable_yields var).bind fun _ hv => Yields.pure hv
  exact (Yields.mapM hdeclare _).imp fun _ h => List.all_eq_true.mpr h

variable {compileScope : IR.Scope → CompileM (List Instruction × IR.Scope)}

/-- `compile_branch` appends a branch whose scopes compile as `compileScope` compiles
them. -/
theorem compileBranch_yields (hscope : ∀ scope, Yields (BodyNamed ·.1) (compileScope scope))
    {instructions : List Instruction} (hinstructions : BodyNamed instructions)
    (branch : IR.Branch) : Yields BodyNamed (compileBranch compileScope instructions branch) := by
  have hv := compileVariable_yields
  cases branch
  case «if» =>
    exact (hv _).bind fun _ hc => (hscope _).bind fun ⟨_, _⟩ hbody =>
      Yields.pure (hinstructions.append_single (by
        simp only [Instruction.namedWithoutBraces, hc, hbody.listNamed, Bool.and_self]))
  case ifElse =>
    exact (hv _).bind fun _ hc => (hscope _).bind fun ⟨_, _⟩ hif => (hscope _).bind
      fun ⟨_, _⟩ helse => Yields.pure (hinstructions.append_single (by
        simp only [Instruction.namedWithoutBraces, hc, hif.listNamed, helse.listNamed,
          Bool.and_self]))
  case rangeLoop step _ =>
    have hstep : Yields (fun o : Option Variable => o.all Variable.namedWithoutBraces = true)
        (step.mapM compileVariable) := by
      cases step
      case none => exact Yields.pure rfl
      case some => exact (hv _).bind fun _ h => Yields.pure h
    exact (hv _).bind fun _ hi => (hv _).bind fun _ hs => (hv _).bind fun _ he =>
      hstep.bind fun _ ho => (hscope _).bind fun ⟨_, _⟩ hbody =>
        Yields.pure (hinstructions.append_single (by
          simp only [Instruction.namedWithoutBraces, hi, hs, he, ho, hbody.listNamed,
            Bool.and_self]))
  case «loop» =>
    exact (hscope _).bind fun ⟨_, _⟩ hbody =>
      Yields.pure (hinstructions.append_single hbody.listNamed)
  all_goals exact Yields.pure (hinstructions.append_single rfl)

/-- `compile_operation` appends what one operation compiles to, an expanded procedure
included. -/
theorem compileOperation_yields (hscope : ∀ scope, Yields (BodyNamed ·.1) (compileScope scope))
    (acc : List Instruction × IR.Scope) (op : IR.Operation) (hacc : BodyNamed acc.1) :
    Yields (BodyNamed ·.1) (compileOperation expand compileScope acc op) := by
  cases op
  case operator =>
    exact (compileInstruction_yields _).bind fun _ h => Yields.pure (hacc.append_single h)
  case procedure =>
    exact (hscope _).bind fun ⟨_, _⟩ h => Yields.pure (by
      simp only [BodyNamed, List.all_append, Bool.and_eq_true] at hacc h ⊢
      exact ⟨hacc, h⟩)
  case metadata =>
    exact (compileMetadata_yields _).bind fun _ h => Yields.pure (hacc.append_single h)
  case branch =>
    exact (compileBranch_yields hscope hacc _).bind fun _ h => Yields.pure h
  case synchronization sync =>
    exact Yields.pure (hacc.append_single (by cases sync <;> rfl))
  case subcube =>
    exact (compileSubgroup_yields _).bind fun _ h => Yields.pure (hacc.append_single h)
  case coopMma => exact Yields.failure

variable (optimize expand) in
/-- `compile_scope`, at every fuel: every scope compiles to a body whose `Named` variables
hold no brace. -/
theorem compileScope_yields :
    ∀ (fuel : Nat) (scope : IR.Scope),
      Yields (BodyNamed ·.1) (Wgsl.compileScope optimize expand fuel scope)
  | 0, _ => Yields.failure
  | fuel + 1, _ => Yields.bind_any fun ⟨_, _⟩ => (compileDeclarations_yields _).bind fun _ hd =>
      Yields.foldlM (compileOperation_yields (compileScope_yields fuel)) _ _ hd

/-- The body `compile` puts in a shader is what `compile_scope` gave for the kernel's. -/
theorem compile_bodyNamed {macos : Bool} {fuel : Nat} {kernel : KernelDefinition}
    {shader : ComputeShader} (h : compile optimize expand macos fuel kernel = some shader) :
    BodyNamed shader.body.instructions := by
  have hshader : Yields (fun shader : ComputeShader => BodyNamed shader.body.instructions)
      (compileShader optimize expand macos fuel kernel) :=
    Yields.bind_any fun _ => (compileScope_yields optimize expand fuel _).bind fun ⟨_, _⟩ h =>
      Yields.bind_any fun _ => Yields.bind_any fun _ => Yields.bind_any fun _ =>
        Yields.bind_any fun _ => Yields.pure h
  simp only [compile, StateT.run'_eq, Option.map_eq_map, Option.map_eq_some'] at h
  obtain ⟨⟨_, c'⟩, hrun, rfl⟩ := h
  exact hshader _ _ _ hrun

end Compile

/-- The body text of every shader the WGSL compiler produces is well nested: whatever the
kernel, the procedures expanded into it, the fuel and `ScopeProcessing::optimize`, and for
every `Display` of elements, floats and subgroup operations that writes no brace, reading
the body from the start no closing brace closes nothing and every opening brace is closed
at the end. -/
theorem compile_well_nested (optimize : IR.ScopeProcessing → IR.ScopeProcessing)
    (expand : IR.Procedure → IR.Scope → IR.Scope) (macos : Bool) (fuel : Nat)
    (kernel : KernelDefinition) (shader : ComputeShader)
    (hcompile : compile optimize expand macos fuel kernel = some shader)
    (formats : Formats) (hformats : formats.WithoutBraces) (subgroup : Subgroup → Option String)
    (hsubgroup : ∀ op text, subgroup op = some text → noBraces text = true) (text : String)
    (h : Instruction.fmtList formats macos subgroup shader.body.instructions = some text) :
    braceDepth 0 text.data = some 0 := by
  have hnames := compile_bodyNamed hcompile
  rw [BodyNamed, ← listNamedWithoutBraces_eq_all] at hnames
  exact Instruction.fmtList_neutral macos hformats hsubgroup _ hnames h 0

/-- A kernel whose body is `loop { if true { break; } }`, one scope in another. -/
def breakInLoopKernel : KernelDefinition where
  inputs := []
  outputs := []
  named := []
  cubeDim := ⟨1, 1, 1⟩
  body := IR.Scope.root.register (.branch (.loop (IR.Scope.root.child.register
    (.branch (.if (.constantScalar (.bool true))
      (IR.Scope.root.child.child.register (.branch .break)))))))

/-- `breakInLoopKernel` compiles, without optimization, to a body written with
well-nested braces. -/
theorem compile_well_nested_break_in_loop :
    (compile id (fun _ scope => scope) false 3 breakInLoopKernel).bind
        (fun shader => Instruction.fmtList ⟨fun _ => "f32", fun _ => "1.0", fun _ => "1.0"⟩ false
          (fun _ => none) shader.body.instructions) =
      some "loop \x7b\nif true \x7b\nbreak;\n\x7d\n\x7d\n" ∧
    braceDepth 0 "loop \x7b\nif true \x7b\nbreak;\n\x7d\n\x7d\n".data = some 0 :=
  ⟨rfl, compile_well_nested id (fun _ scope => scope) false 3 breakInLoopKernel _ rfl
    ⟨fun _ => "f32", fun _ => "1.0", fun _ => "1.0"⟩ ⟨fun _ => rfl, fun _ => rfl, fun _ => rfl⟩
    (fun _ => none) (fun _ _ h => by cases h) _ rfl⟩

end CubeCL.Wgsl
