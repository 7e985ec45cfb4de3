import CubeCL.IR.Scope

/-!
# `CubeCL.IR.ScopeRun`: runs of `Scope` methods

A scope is built by one emitter, one method call at a time. `ScopeOp` names the calls,
with their arguments, and `ScopeOp.apply` runs one of them. `Scope.run` runs a list of
calls in order and collects what each hands back; it is `none` when a call panics.

The invariants of `CubeCL.IR.LocalIds`, `CubeCL.IR.Layout` and `CubeCL.IR.Process` are
stated over these runs, from a scope that `Scope::root` or `Scope::child` made
(`Scope.Fresh`). `run_cons` and `run_append` are the run equations; the `@[simp]` lemmas
below say which fields each method leaves alone.
-/

set_option autoImplicit false

namespace CubeCL.IR

/-- A call of a `Scope` method, with its arguments. -/
inductive ScopeOp where
  | createLocal (item : Item)
  | createLocalUndeclared (item : Item)
  | readArray (index : Nat) (item : Item) (position : Variable)
  | zero (item : Item)
  | createWithValue (value : Primitive) (item : Item)
  | createMatrix (matrix : Matrix)
  | createSlice (item : Item)
  | createShared (item : Item) (size : Nat)
  | createLocalArray (item : Item) (size : Nat)
  | readScalar (index : Nat) (elem : Elem)
  | indexOffsetWithOutputLayout (proc : IndexOffsetGlobalWithLayout)
  | register (operation : Operation)
  | vectorize (factor : Nat)
  | writeGlobal (input output position : Variable)
  | writeGlobalCustom (output : Variable)
  | updateRead (index : Nat) (strategy : ReadingStrategy)
  | process

/-- What a call hands back: a variable, the result of `process`, or nothing. -/
inductive ScopeResult where
  | var (v : Variable)
  | processing (p : ScopeProcessing)
  | unit

/-- One call on the scope, for the given `optimize`; `none` when the call panics. -/
def ScopeOp.apply (optimize : ScopeProcessing → ScopeProcessing) (s : Scope) :
    ScopeOp → Option (ScopeResult × Scope)
  | .createLocal item => let (v, s) := s.createLocal item; some (.var v, s)
  | .createLocalUndeclared item => let (v, s) := s.createLocalUndeclared item; some (.var v, s)
  | .readArray index item position =>
      let (v, s) := s.readArray index item position; some (.var v, s)
  | .zero item => let (v, s) := s.zero item; some (.var v, s)
  | .createWithValue value item =>
      (s.createWithValue value item).map fun (v, s) => (.var v, s)
  | .createMatrix matrix => let (v, s) := s.createMatrix matrix; some (.var v, s)
  | .createSlice item => let (v, s) := s.createSlice item; some (.var v, s)
  | .createShared item size => let (v, s) := s.createShared item size; some (.var v, s)
  | .createLocalArray item size => let (v, s) := s.createLocalArray item size; some (.var v, s)
  | .readScalar index elem => let (v, s) := s.readScalar index elem; some (.var v, s)
  | .indexOffsetWithOutputLayout proc => some (.unit, s.indexOffsetWithOutputLayout proc)
  | .register operation => some (.unit, s.register operation)
  | .vectorize factor => some (.unit, s.vectorize factor)
  | .writeGlobal input output position => some (.unit, s.writeGlobal input output position)
  | .writeGlobalCustom output => some (.unit, s.writeGlobalCustom output)
  | .updateRead index strategy => some (.unit, s.updateRead index strategy)
  | .process => (s.process optimize).map fun (p, s) => (.processing p, s)

namespace Scope

/-- Run the calls in order from `s`: the results, and the scope at the end. -/
def run (optimize : ScopeProcessing → ScopeProcessing) (s : Scope) :
    List ScopeOp → Option (List ScopeResult × Scope)
  | [] => some ([], s)
  | op :: ops => do
      let (r, s₁) ← op.apply optimize s
      let (rs, s₂) ← run optimize s₁ ops
      pure (r :: rs, s₂)

/-- A scope as `Scope::root` or `Scope::child` makes it: nothing recorded yet, and a
layout reference that is the parent's (none for a root). -/
structure Fresh (s : Scope) : Prop where
  operations : s.operations = []
  locals : s.locals = []
  matrices : s.matrices = []
  slices : s.slices = []
  readsGlobal : s.readsGlobal = []
  positions : s.indexOffsetWithOutputLayoutPosition = []
  writesGlobal : s.writesGlobal = []
  readsScalar : s.readsScalar = []
  undeclared : s.undeclared = 0

/-- `Scope::root` is fresh. -/
theorem fresh_root : root.Fresh := ⟨rfl, rfl, rfl, rfl, rfl, rfl, rfl, rfl, rfl⟩

/-- A child scope is fresh, whatever its parent holds. -/
theorem fresh_child (p : Scope) : p.child.Fresh := ⟨rfl, rfl, rfl, rfl, rfl, rfl, rfl, rfl, rfl⟩

/-- Every scope made by `root` or `child` is fresh. -/
theorem fresh_of_root_or_child {s : Scope}
    (h : s = root ∨ ∃ parent : Scope, s = parent.child) : s.Fresh := by
  rcases h with rfl | ⟨parent, rfl⟩
  · exact fresh_root
  · exact fresh_child parent

/-- `update_read` touches nothing but the pending global reads. -/
theorem updateRead_eq (s : Scope) (index : Nat) (strategy : ReadingStrategy) :
    ∃ reads, s.updateRead index strategy = { s with readsGlobal := reads } := by
  unfold updateRead
  split
  · exact ⟨_, rfl⟩
  · exact ⟨s.readsGlobal, rfl⟩

variable {optimize : ScopeProcessing → ScopeProcessing}

/-- The run equation of a first call. -/
theorem run_cons (s : Scope) (op : ScopeOp) (ops : List ScopeOp) :
    run optimize s (op :: ops) =
      (op.apply optimize s).bind fun (r, s₁) =>
        (run optimize s₁ ops).map fun (rs, s₂) => (r :: rs, s₂) := by
  simp only [run, bind, Option.bind]
  rcases op.apply optimize s with _ | ⟨r, s₁⟩ <;> simp only
  rcases run optimize s₁ ops with _ | ⟨rs, s₂⟩ <;> rfl

/-- A run that succeeds is a first call that succeeds and a run of the rest from where it
leaves the scope. -/
theorem run_cons_eq_some {s s' : Scope} {op : ScopeOp} {ops : List ScopeOp}
    {rs : List ScopeResult} :
    run optimize s (op :: ops) = some (rs, s') ↔
      ∃ r s₁ rs', op.apply optimize s = some (r, s₁) ∧ run optimize s₁ ops = some (rs', s') ∧
        rs = r :: rs' := by
  rw [run_cons]
  constructor
  · intro h
    obtain ⟨⟨r, s₁⟩, happ, hrest⟩ := Option.bind_eq_some.mp h
    obtain ⟨⟨rs', s₂⟩, hrun, heq⟩ := Option.map_eq_some'.mp hrest
    cases heq
    exact ⟨r, s₁, rs', happ, hrun, rfl⟩
  · rintro ⟨r, s₁, rs', happ, hrun, rfl⟩
    simp [happ, hrun]

/-- A run of a concatenation is the run of the second part from where the first ends. -/
theorem run_append (s : Scope) (ops₁ ops₂ : List ScopeOp) :
    run optimize s (ops₁ ++ ops₂) =
      (run optimize s ops₁).bind fun (rs₁, s₁) =>
        (run optimize s₁ ops₂).map fun (rs₂, s₂) => (rs₁ ++ rs₂, s₂) := by
  induction ops₁ generalizing s with
  | nil => cases h : run optimize s ops₂ <;> simp [run, h]
  | cons op ops₁ ih =>
      rw [List.cons_append, run_cons, run_cons]
      rcases op.apply optimize s with _ | ⟨r, s₁⟩
      · rfl
      · simp only [Option.some_bind, ih]
        rcases run optimize s₁ ops₁ with _ | ⟨rs₁, s₂⟩
        · rfl
        · simp only [Option.some_bind, Option.map_some']
          rcases run optimize s₂ ops₂ with _ | ⟨rs₂, s₃⟩ <;> rfl

end Scope

end CubeCL.IR
