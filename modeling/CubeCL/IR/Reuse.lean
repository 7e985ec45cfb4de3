import CubeCL.IR.Process

/-!
# `CubeCL.IR.Reuse`: the ids of matrices, slices and scalar reads across `process`

A `Local` takes its id from `new_local_index`, which counts the locals `process` has
already declared (`undeclared`), so its ids keep growing across `process` calls
(`CubeCL.IR.LocalIds`). A matrix, a slice and a scalar read take theirs from the length of
`matrices`, `slices` and `reads_scalar`, and `process` drains those three lists. Nothing
else remembers them.

* `apply_process_restarts`: after any `process`, the next `create_matrix`, `create_slice`
  and `read_scalar` hand out id `0` at the scope's depth.
* `process_reuses_ids`: with it, from every scope `root` or `child` makes, the first
  matrix, slice and scalar read and the first ones after a `process` have the same kind,
  id and depth.
  A backend procedure that is expanded into a processed scope and processed again, as
  `compile_procedure` does, gets variables that clash with the ones it was given.
-/

set_option autoImplicit false

namespace CubeCL.IR

namespace Scope

variable {optimize : ScopeProcessing → ScopeProcessing}

/-- The first matrix, slice and scalar read of a scope with none pending have id `0` at the
scope's depth. -/
theorem createMatrix_createSlice_readScalar_of_empty {s : Scope} (hm : s.matrices = [])
    (hs : s.slices = []) (hr : s.readsScalar = []) (m : Matrix) (item : Item) (index : Nat)
    (elem : Elem) :
    (s.createMatrix m).1 = .matrix 0 m s.depth ∧ (s.createSlice item).1 = .slice 0 item s.depth ∧
      (s.readScalar index elem).1 = .localScalar 0 elem s.depth := by
  simp only [createMatrix, createSlice, readScalar, newLocalScalarIndex, hm, hs, hr]
  exact ⟨rfl, rfl, rfl⟩

/-- After any `process`, the next `create_matrix`, `create_slice` and `read_scalar` hand out
id `0` at the scope's depth: `process` drains the three lists their ids are counted
from. -/
theorem apply_process_restarts {s s' : Scope} {r : ScopeResult}
    (happ : ScopeOp.process.apply optimize s = some (r, s')) (m : Matrix) (item : Item)
    (index : Nat) (elem : Elem) :
    (s'.createMatrix m).1 = .matrix 0 m s.depth ∧ (s'.createSlice item).1 = .slice 0 item s.depth ∧
      (s'.readScalar index elem).1 = .localScalar 0 elem s.depth := by
  obtain ⟨p, -, -, rfl⟩ := apply_process_eq_some happ
  exact createMatrix_createSlice_readScalar_of_empty rfl rfl rfl m item index elem

/-- `process` succeeds on a scope with no index-offset procedure to backfill and no pending
global read: nothing needs the layout reference. -/
theorem processing_of_no_reads {s : Scope} (hpos : s.indexOffsetWithOutputLayoutPosition = [])
    (hreads : s.readsGlobal = []) : ∃ p, s.processing = some (p, s.drained) := by
  rw [processing_eq, hpos, hreads]
  exact ⟨_, rfl⟩

/-- The ids of matrices, slices and scalar reads across `process`. After any `process`, the
next `create_matrix`, `create_slice` and `read_scalar` hand out id `0` at the scope's depth.
So from every scope `root` or `child` makes, a matrix, a slice and a scalar read, then
`process`, then a matrix, a slice and a scalar read again: the run succeeds, and the
variables handed out after the `process` have the kind, id and depth of the ones handed out
before it. -/
theorem process_reuses_ids (optimize : ScopeProcessing → ScopeProcessing) :
    (∀ (s s' : Scope) (r : ScopeResult), ScopeOp.process.apply optimize s = some (r, s') →
      ∀ m item index elem,
        (s'.createMatrix m).1 = .matrix 0 m s.depth ∧
          (s'.createSlice item).1 = .slice 0 item s.depth ∧
          (s'.readScalar index elem).1 = .localScalar 0 elem s.depth) ∧
    ∀ s : Scope, s.Fresh → ∀ (m m' : Matrix) (item item' : Item) (index index' : Nat)
      (elem elem' : Elem), ∃ p s', run optimize s [.createMatrix m, .createSlice item,
        .readScalar index elem, .process, .createMatrix m', .createSlice item',
        .readScalar index' elem'] =
      some ([.var (.matrix 0 m s.depth), .var (.slice 0 item s.depth),
        .var (.localScalar 0 elem s.depth), .processing p, .var (.matrix 0 m' s.depth),
        .var (.slice 0 item' s.depth), .var (.localScalar 0 elem' s.depth)], s') := by
  refine ⟨fun s s' r happ => apply_process_restarts happ, fun s hs m m' item item' index index'
    elem elem' => ?_⟩
  obtain ⟨p, hp⟩ := @processing_of_no_reads
    (((s.createMatrix m).2.createSlice item).2.readScalar index elem).2 hs.positions
    hs.readsGlobal
  simp only [createMatrix, createSlice, readScalar, newLocalScalarIndex, hs.matrices, hs.slices,
    hs.readsScalar, List.length_nil, List.nil_append] at hp
  exact ⟨optimize p, _, by
    simp only [run, ScopeOp.apply, createMatrix, createSlice, readScalar, newLocalScalarIndex,
      hs.matrices, hs.slices, hs.readsScalar, Scope.process, hp, Option.map_some', bind,
      Option.bind, drained, List.length_nil, List.nil_append]
    rfl⟩

/-- From a root scope, one matrix, slice and scalar read on each side of a `process`. -/
theorem process_reuses_ids_root :
    root.Fresh ∧ ∃ p s', run id root [.createMatrix ⟨0⟩, .createSlice (Item.new .uint),
        .readScalar 0 .uint, .process, .createMatrix ⟨1⟩, .createSlice (Item.new .bool),
        .readScalar 1 .uint] =
      some ([.var (.matrix 0 ⟨0⟩ 0), .var (.slice 0 (Item.new .uint) 0),
        .var (.localScalar 0 .uint 0), .processing p, .var (.matrix 0 ⟨1⟩ 0),
        .var (.slice 0 (Item.new .bool) 0), .var (.localScalar 0 .uint 0)], s') :=
  ⟨fresh_root, (process_reuses_ids id).2 root fresh_root ⟨0⟩ ⟨1⟩ (Item.new .uint)
    (Item.new .bool) 0 1 .uint .uint⟩

end Scope

end CubeCL.IR
