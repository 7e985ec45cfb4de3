import Mathlib.Algebra.Group.Nat.Basic
import Mathlib.Data.List.Nodup

/-!
# `CubeCL.Cuda.Storage`: deferred deallocation in `CudaStorage`

`CudaStorage` of `cubecl-cuda/src/compute/storage.rs` as a state machine over `alloc`,
`dealloc`, `get`, `flush` and `perform_deallocations`. `dealloc` only records the id;
`perform_deallocations` drains the records and calls `free_async` on the pointer that
`memory.remove` returns for each of them. The state keeps a log `freed` of those calls.

The hash maps are functions. `StorageId::new` and `malloc_async` are not under `src/`:
`alloc` takes the id and the pointer they return. `FreshIds` is the assumption that
`StorageId::new` never returns an id twice, so that no operation names an id before the
`alloc` that returns it. A `get` of an id that is not in `memory` panics at its `unwrap`,
which the model makes `none`; the stream and `free_async`'s own failure are not modelled.

* `performDeallocations_spec`: `perform_deallocations` frees every pending id that is in
  `memory`, once each, and leaves none of the pending ids in `memory`.
* `Sound.run`: over every run with fresh ids, no id is freed twice, only allocated ids are
  freed, and a freed id never comes back.
* `live_run`: an id stays in `memory` exactly until a `perform_deallocations` that follows
  one of its `dealloc`s.
* `cuda_storage_frees_once` assembles these over every run from `CudaStorage::new`.
* `slice_kept_until_flush`: the pointer of a slice that `get` hands out stays in
  `activate_slices` until the next `flush`, even past the deallocation of its storage.
-/

set_option autoImplicit false

namespace CubeCL.Cuda

/-- `StorageId`. -/
abbrev StorageId := Nat

/-- `StorageUtilization`: the whole storage, or a slice of it. -/
inductive StorageUtilization where
  | full (size : Nat)
  | slice (offset size : Nat)
  deriving DecidableEq, Repr

/-- `StorageHandle`. -/
structure StorageHandle where
  id : StorageId
  utilization : StorageUtilization
  deriving DecidableEq, Repr

/-- `CudaResourceKind`. -/
inductive CudaResourceKind where
  | full (size : Nat)
  | slice (size offset : Nat)
  deriving DecidableEq, Repr

/-- `ActiveResource`: the key of an active slice. -/
structure ActiveResource where
  ptr : Nat
  kind : CudaResourceKind
  deriving DecidableEq, Repr

/-- `CudaResource`, without `binding`, which is the address of the pointer's map entry. -/
structure CudaResource where
  ptr : Nat
  kind : CudaResourceKind
  deriving DecidableEq, Repr

/-- `CudaStorage`, with the `free_async` calls made so far: each id with its pointer. A hash
map is a function to `Option`: `insert` and `remove` are `Function.update` to `some` and to
`none`. -/
structure CudaStorage where
  memory : StorageId → Option Nat
  deallocations : List StorageId
  activateSlices : ActiveResource → Option Nat
  freed : List (StorageId × Nat)

namespace CudaStorage

/-- `CudaStorage::new`. -/
def new : CudaStorage := ⟨fun _ => none, [], fun _ => none, []⟩

/-- One iteration of `perform_deallocations`' loop: `memory.remove(&id)`, and `free_async`
of the pointer it returns. -/
def deallocate (s : CudaStorage) (id : StorageId) : CudaStorage :=
  match s.memory id with
  | some ptr => { s with memory := Function.update s.memory id none, freed := s.freed ++ [(id, ptr)] }
  | none => s

/-- `perform_deallocations`: drain the recorded ids in order. -/
def performDeallocations (s : CudaStorage) : CudaStorage :=
  { s.deallocations.foldl deallocate s with deallocations := [] }

/-- `flush`. -/
def flush (s : CudaStorage) : CudaStorage := { s with activateSlices := fun _ => none }

/-- `get`: the resource of a handle, `none` where `memory.get(&handle.id).unwrap()` panics.
A slice's pointer is offset with the wrapping of `u64` and recorded as active. -/
def get (s : CudaStorage) (handle : StorageHandle) : Option (CudaResource × CudaStorage) :=
  match s.memory handle.id with
  | none => none
  | some ptr =>
      match handle.utilization with
      | .full size => some (⟨ptr, .full size⟩, s)
      | .slice offset size =>
          let ptr := (ptr + offset) % 2 ^ 64
          let kind := CudaResourceKind.slice size offset
          some (⟨ptr, kind⟩, { s with activateSlices := Function.update s.activateSlices ⟨ptr, kind⟩ (some ptr) })

/-- `alloc`, given the id `StorageId::new` returns and the pointer `malloc_async` returns. -/
def alloc (s : CudaStorage) (id : StorageId) (ptr size : Nat) : StorageHandle × CudaStorage :=
  (⟨id, .full size⟩, { s with memory := Function.update s.memory id (some ptr) })

/-- `dealloc`. -/
def dealloc (s : CudaStorage) (id : StorageId) : CudaStorage :=
  { s with deallocations := s.deallocations ++ [id] }

end CudaStorage

/-- An operation on the storage, with what the environment supplies to `alloc`. -/
inductive StorageOp where
  | alloc (id : StorageId) (ptr size : Nat)
  | dealloc (id : StorageId)
  | get (handle : StorageHandle)
  | flush
  | performDeallocations
  deriving DecidableEq, Repr

/-- What an operation returns. -/
inductive StorageResult where
  | handle (handle : StorageHandle)
  | resource (resource : CudaResource)
  | unit
  deriving DecidableEq, Repr

/-- One operation; `none` when it panics. -/
def StorageOp.apply (s : CudaStorage) : StorageOp → Option (StorageResult × CudaStorage)
  | .alloc id ptr size => let (handle, s) := s.alloc id ptr size; some (.handle handle, s)
  | .dealloc id => some (.unit, s.dealloc id)
  | .get handle => (s.get handle).map fun (resource, s) => (.resource resource, s)
  | .flush => some (.unit, s.flush)
  | .performDeallocations => some (.unit, s.performDeallocations)

/-- Run the operations in order: the results and the final storage, or `none` on a panic. -/
def CudaStorage.run (s : CudaStorage) : List StorageOp → Option (List StorageResult × CudaStorage)
  | [] => some ([], s)
  | op :: ops =>
      match op.apply s with
      | none => none
      | some (r, s₁) => (CudaStorage.run s₁ ops).map fun (rs, s₂) => (r :: rs, s₂)

/-- The id an `alloc` returns. -/
def StorageOp.allocId? : StorageOp → Option StorageId
  | .alloc id _ _ => some id
  | _ => none

/-- The id an operation names. -/
def StorageOp.id? : StorageOp → Option StorageId
  | .alloc id _ _ => some id
  | .dealloc id => some id
  | .get handle => some handle.id
  | .flush | .performDeallocations => none

/-- Every `alloc` names an id that neither `seen` nor an earlier operation names. -/
def freshAfter (seen : List StorageId) : List StorageOp → Bool
  | [] => true
  | op :: ops =>
      (match op with
        | .alloc id _ _ => decide (id ∉ seen)
        | _ => true) && freshAfter (seen ++ op.id?.toList) ops

/-- `StorageId::new` never returns an id twice: no operation names the id of an `alloc`
before it, or allocates it again. -/
def FreshIds (ops : List StorageOp) : Prop := freshAfter [] ops = true

/-- `FreshIds` is decided by running `freshAfter`. -/
instance (ops : List StorageOp) : Decidable (FreshIds ops) :=
  inferInstanceAs (Decidable (freshAfter [] ops = true))

namespace CudaStorage

/-- A run that does not panic is a first step that does not panic, then a run. -/
theorem run_cons_eq_some {s s' : CudaStorage} {op : StorageOp} {ops : List StorageOp}
    {rs : List StorageResult} :
    s.run (op :: ops) = some (rs, s') ↔
      ∃ r s₁ rs', op.apply s = some (r, s₁) ∧ s₁.run ops = some (rs', s') ∧ rs = r :: rs' := by
  simp only [run]
  split
  · simp_all
  next r s₁ hop =>
    simp only [Option.map_eq_some', Prod.mk.injEq, hop, Option.some.injEq]
    constructor
    · rintro ⟨⟨rs', s₂⟩, hrun, rfl, rfl⟩
      exact ⟨r, s₁, rs', ⟨rfl, rfl⟩, hrun, rfl⟩
    · rintro ⟨_, _, rs', ⟨rfl, rfl⟩, hrun, rfl⟩
      exact ⟨_, hrun, rfl, rfl⟩

/-- A run of two lists that does not panic splits into the runs of the two. -/
theorem run_append_eq_some {s s' : CudaStorage} {ops₁ ops₂ : List StorageOp}
    {rs : List StorageResult} (h : s.run (ops₁ ++ ops₂) = some (rs, s')) :
    ∃ rs₁ s₁ rs₂, s.run ops₁ = some (rs₁, s₁) ∧ s₁.run ops₂ = some (rs₂, s') ∧ rs = rs₁ ++ rs₂ := by
  induction ops₁ generalizing s rs with
  | nil => exact ⟨[], s, rs, rfl, h, rfl⟩
  | cons op ops₁ ih =>
      obtain ⟨r, s₁, rs', hop, hrun, rfl⟩ := run_cons_eq_some.mp h
      obtain ⟨rs₁, s₂, rs₂, h₁, h₂, rfl⟩ := ih hrun
      exact ⟨r :: rs₁, s₂, rs₂, run_cons_eq_some.mpr ⟨r, s₁, rs₁, hop, h₁, rfl⟩, h₂, rfl⟩

/-! ### `perform_deallocations` -/

/-- The drain loop: every id of the list leaves `memory`; the ones in `memory` are freed
once each, with their pointers, and nothing else is. -/
theorem foldl_deallocate (ids : List StorageId) (s : CudaStorage) :
    (ids.foldl deallocate s).deallocations = s.deallocations ∧
      (∀ id, (ids.foldl deallocate s).memory id = if id ∈ ids then none else s.memory id) ∧
      ∃ newly, (ids.foldl deallocate s).freed = s.freed ++ newly ∧
        (newly.map Prod.fst).Nodup ∧
        ∀ id ptr, (id, ptr) ∈ newly ↔ id ∈ ids ∧ s.memory id = some ptr := by
  induction ids generalizing s with
  | nil => exact ⟨rfl, fun _ => rfl, [], by simp, List.nodup_nil, by simp⟩
  | cons i ids ih =>
      simp only [List.foldl_cons]
      cases hi : s.memory i with
      | none =>
          rw [show deallocate s i = s by simp [deallocate, hi]]
          obtain ⟨hdeallocs, hmemory, newly, hfreed, hnodup, hnewly⟩ := ih s
          refine ⟨hdeallocs, fun id => ?_, newly, hfreed, hnodup, fun id q => ?_⟩
          · rw [hmemory]
            by_cases h : id = i <;> simp [h, hi]
          · rw [hnewly]
            by_cases h : id = i <;> simp [h, hi]
      | some ptr =>
          rw [show deallocate s i =
              { s with memory := Function.update s.memory i none, freed := s.freed ++ [(i, ptr)] } by
            simp [deallocate, hi]]
          obtain ⟨hdeallocs, hmemory, newly, hfreed, hnodup, hnewly⟩ := ih
            { s with memory := Function.update s.memory i none, freed := s.freed ++ [(i, ptr)] }
          have hout : ∀ q, (i, q) ∉ newly := fun q hq => by
            simpa [Function.update_apply] using (hnewly i q).mp hq
          refine ⟨hdeallocs, fun id => ?_, (i, ptr) :: newly, by simpa using hfreed, ?_,
            fun id q => ?_⟩
          · rw [hmemory]
            by_cases h : id = i <;> simp [Function.update_apply, h]
          · refine List.nodup_cons.mpr ⟨fun hmem => ?_, hnodup⟩
            obtain ⟨⟨_, q⟩, hq, rfl⟩ := List.mem_map.mp hmem
            exact hout q hq
          · rw [List.mem_cons, hnewly]
            by_cases h : id = i
            · subst h
              simp [hi, eq_comm]
            · simp [Function.update_apply, h]

/-- `perform_deallocations` on any storage: the pending ids leave `memory`, every pending
id in `memory` is freed once with its pointer, and the records are emptied. -/
theorem performDeallocations_spec (s : CudaStorage) :
    s.performDeallocations.deallocations = [] ∧
      (∀ id, s.performDeallocations.memory id =
        if id ∈ s.deallocations then none else s.memory id) ∧
      ∃ newly, s.performDeallocations.freed = s.freed ++ newly ∧ (newly.map Prod.fst).Nodup ∧
        ∀ id ptr, (id, ptr) ∈ newly ↔ id ∈ s.deallocations ∧ s.memory id = some ptr :=
  let ⟨_, hmemory, hfreed⟩ := foldl_deallocate s.deallocations s
  ⟨rfl, hmemory, hfreed⟩

/-! ### `get` -/

/-- A `get` that succeeds changes nothing but the active slices, which at most gain the
entry of the slice it returns. -/
theorem get_eq_some {s s' : CudaStorage} {handle : StorageHandle} {resource : CudaResource}
    (h : s.get handle = some (resource, s')) :
    s'.memory = s.memory ∧ s'.deallocations = s.deallocations ∧ s'.freed = s.freed ∧
      (s'.activateSlices = s.activateSlices ∨ s'.activateSlices =
        Function.update s.activateSlices ⟨resource.ptr, resource.kind⟩ (some resource.ptr)) := by
  simp only [get] at h
  split at h
  · cases h
  · split at h <;> cases h
    · exact ⟨rfl, rfl, rfl, .inl rfl⟩
    · exact ⟨rfl, rfl, rfl, .inr rfl⟩

/-- `get` panics exactly on the ids that are not in `memory`. -/
theorem get_isSome (s : CudaStorage) (handle : StorageHandle) :
    (s.get handle).isSome ↔ (s.memory handle.id).isSome := by
  simp only [get]
  split
  · simp_all
  · split <;> simp_all

/-- What one operation can do: the inversion lemma the run lemmas below use. -/
theorem apply_eq_some {s s' : CudaStorage} {op : StorageOp} {r : StorageResult}
    (h : op.apply s = some (r, s')) :
    (∃ id ptr size, op = .alloc id ptr size ∧ r = .handle ⟨id, .full size⟩ ∧
        s' = { s with memory := Function.update s.memory id (some ptr) }) ∨
      (∃ id, op = .dealloc id ∧ s' = s.dealloc id) ∨
      (∃ handle resource, op = .get handle ∧ r = .resource resource ∧
        s'.memory = s.memory ∧ s'.deallocations = s.deallocations ∧ s'.freed = s.freed ∧
        (s'.activateSlices = s.activateSlices ∨ s'.activateSlices =
          Function.update s.activateSlices ⟨resource.ptr, resource.kind⟩ (some resource.ptr))) ∨
      (op = .flush ∧ s' = s.flush) ∨
      (op = .performDeallocations ∧ s' = s.performDeallocations) := by
  cases op with
  | alloc id ptr size =>
      obtain ⟨rfl, rfl⟩ : r = _ ∧ s' = _ := by simpa [StorageOp.apply, alloc] using h.symm
      exact .inl ⟨id, ptr, size, rfl, rfl, rfl⟩
  | dealloc id => exact .inr (.inl ⟨id, rfl, (Prod.mk.inj (Option.some.inj h)).2.symm⟩)
  | get handle =>
      simp only [StorageOp.apply, Option.map_eq_some'] at h
      obtain ⟨⟨resource, t⟩, hget, heq⟩ := h
      cases heq
      exact .inr (.inr (.inl ⟨handle, resource, rfl, rfl, get_eq_some hget⟩))
  | flush => exact .inr (.inr (.inr (.inl ⟨rfl, (Prod.mk.inj (Option.some.inj h)).2.symm⟩)))
  | performDeallocations =>
      exact .inr (.inr (.inr (.inr ⟨rfl, (Prod.mk.inj (Option.some.inj h)).2.symm⟩)))

/-! ### Frees over a run -/

/-- What the storage allocated so far accounts for: no id freed twice, only allocated ids
freed, freed ids out of `memory`, and only allocated ids in it. -/
structure Sound (allocated : List StorageId) (s : CudaStorage) : Prop where
  freed_nodup : (s.freed.map Prod.fst).Nodup
  freed_allocated : ∀ p ∈ s.freed, p.1 ∈ allocated
  freed_dead : ∀ p ∈ s.freed, s.memory p.1 = none
  live_allocated : ∀ id ptr, s.memory id = some ptr → id ∈ allocated

/-- A new storage has freed nothing and holds nothing. -/
theorem Sound.new : Sound [] new :=
  ⟨List.nodup_nil, fun _ h => absurd h (List.not_mem_nil _),
    fun _ h => absurd h (List.not_mem_nil _), fun _ _ h => Option.noConfusion h⟩

/-- `Sound` reads only `memory` and `freed`. -/
theorem Sound.congr {allocated : List StorageId} {s s' : CudaStorage} (h : Sound allocated s)
    (hmemory : s'.memory = s.memory) (hfreed : s'.freed = s.freed) : Sound allocated s' := by
  obtain ⟨h₁, h₂, h₃, h₄⟩ := h
  exact ⟨by rwa [hfreed], by rwa [hfreed], by rwa [hfreed, hmemory], by rwa [hmemory]⟩

/-- `perform_deallocations` keeps `Sound`: it frees only ids in `memory`, which were
allocated and never freed, and removes them from `memory`. -/
theorem Sound.performDeallocations {allocated : List StorageId} {s : CudaStorage}
    (h : Sound allocated s) : Sound allocated s.performDeallocations := by
  obtain ⟨-, hmemory, newly, hfreed, hnodup, hnewly⟩ := performDeallocations_spec s
  have hlive : ∀ p ∈ newly, s.memory p.1 = some p.2 := fun p hp => ((hnewly p.1 p.2).mp hp).2
  refine ⟨?_, fun p hp => ?_, fun p hp => ?_, fun id ptr hid => ?_⟩
  · rw [hfreed, List.map_append]
    refine h.freed_nodup.append hnodup fun id hold hnew => ?_
    obtain ⟨p, hp, rfl⟩ := List.mem_map.mp hold
    obtain ⟨q, hq, hqp⟩ := List.mem_map.mp hnew
    have := hlive q hq
    rw [hqp, h.freed_dead p hp] at this
    exact Option.noConfusion this
  · rw [hfreed, List.mem_append] at hp
    exact hp.elim (h.freed_allocated p) fun hp => h.live_allocated _ _ (hlive p hp)
  · rw [hmemory]
    rw [hfreed, List.mem_append] at hp
    rcases hp with hp | hp
    · simp [h.freed_dead p hp]
    · simp [((hnewly p.1 p.2).mp hp).1]
  · rw [hmemory] at hid
    split_ifs at hid
    exact h.live_allocated id ptr hid

/-- The step lemma of `Sound`: an `alloc` of an id not allocated before adds it. -/
theorem Sound.apply {allocated : List StorageId} {s s' : CudaStorage} {op : StorageOp}
    {r : StorageResult} (h : Sound allocated s) (hop : op.apply s = some (r, s'))
    (hfresh : ∀ id ∈ op.allocId?, id ∉ allocated) :
    Sound (allocated ++ op.allocId?.toList) s' := by
  rcases apply_eq_some hop with ⟨id, ptr, size, rfl, -, rfl⟩ | ⟨id, rfl, rfl⟩ |
    ⟨handle, -, rfl, -, hmemory, -, hfreed, -⟩ | ⟨rfl, rfl⟩ | ⟨rfl, rfl⟩
  · have hnew : id ∉ allocated := hfresh id rfl
    refine ⟨h.freed_nodup, fun p hp => List.mem_append_left _ (h.freed_allocated p hp),
      fun p hp => ?_, fun id' ptr' hid => ?_⟩
    · have hne : p.1 ≠ id := fun heq => hnew (heq ▸ h.freed_allocated p hp)
      simp [Function.update_apply, hne, h.freed_dead p hp]
    · simp only [Function.update_apply] at hid
      split_ifs at hid with heq
      · simp [StorageOp.allocId?, heq]
      · exact List.mem_append_left _ (h.live_allocated id' ptr' hid)
  all_goals simp only [StorageOp.allocId?, Option.toList_none, List.append_nil]
  · exact h.congr rfl rfl
  · exact h.congr hmemory hfreed
  · exact h.congr rfl rfl
  · exact h.performDeallocations

/-- The ids a run allocates, in order. -/
def allocIds (ops : List StorageOp) : List StorageId := ops.filterMap StorageOp.allocId?

/-- The run lemma of `Sound`, with the ids a run allocates distinct from each other and
from the ones allocated before. -/
theorem Sound.run :
    ∀ (ops : List StorageOp) {allocated : List StorageId} {s s' : CudaStorage}
      {rs : List StorageResult}, Sound allocated s → (allocated ++ allocIds ops).Nodup →
      s.run ops = some (rs, s') → Sound (allocated ++ allocIds ops) s'
  | [], _, _, _, _, h, _, hrun => by
      cases hrun
      simpa [allocIds] using h
  | op :: ops, allocated, _, _, _, h, hnodup, hrun => by
      obtain ⟨r, s₁, rs', hop, hrun', rfl⟩ := run_cons_eq_some.mp hrun
      have hsplit : allocIds (op :: ops) = op.allocId?.toList ++ allocIds ops := by
        simp only [allocIds, List.filterMap_cons]
        cases op.allocId? <;> rfl
      rw [hsplit, ← List.append_assoc] at hnodup ⊢
      refine Sound.run ops (h.apply hop fun id hid hmem => ?_) hnodup hrun'
      have := (List.nodup_append.mp (List.nodup_append.mp hnodup).1).2.2
      exact this hmem (by simpa using hid)

/-- Every id a run allocates comes back in an `alloc`'s handle. -/
theorem run_handles :
    ∀ (ops : List StorageOp) {s s' : CudaStorage} {rs : List StorageResult},
      s.run ops = some (rs, s') → ∀ id ∈ allocIds ops, ∃ size,
        StorageResult.handle ⟨id, .full size⟩ ∈ rs
  | [], _, _, _, _, id, hid => absurd hid (List.not_mem_nil _)
  | op :: ops, _, _, _, hrun, id, hid => by
      obtain ⟨r, s₁, rs', hop, hrun', rfl⟩ := run_cons_eq_some.mp hrun
      have hrest : id ∈ allocIds ops → ∃ size, StorageResult.handle ⟨id, .full size⟩ ∈ r :: rs' :=
        fun hid => (run_handles ops hrun' id hid).imp fun _ => List.mem_cons_of_mem _
      simp only [allocIds, List.filterMap_cons] at hid
      rcases apply_eq_some hop with ⟨id', ptr, size, rfl, rfl, -⟩ | ⟨_, rfl, -⟩ |
        ⟨_, _, rfl, -⟩ | ⟨rfl, -⟩ | ⟨rfl, -⟩
      · rcases List.mem_cons.mp hid with rfl | hid
        exacts [⟨size, List.mem_cons_self _ _⟩, hrest hid]
      all_goals exact hrest hid

/-! ### How long an id stays in `memory` -/

/-- A dealloc of `id` followed, at once or later, by a `perform_deallocations`. -/
theorem dealloc_then_perform_cons (id : StorageId) (op : StorageOp) (ops : List StorageOp) :
    List.Sublist [.dealloc id, .performDeallocations] (op :: ops) ↔
      List.Sublist [.dealloc id, .performDeallocations] ops ∨
        (op = .dealloc id ∧ .performDeallocations ∈ ops) := by
  rw [List.sublist_cons_iff]
  constructor
  · rintro (h | ⟨r, hr, h⟩)
    · exact .inl h
    · obtain ⟨rfl, rfl⟩ := List.cons.inj hr
      exact .inr ⟨rfl, List.singleton_sublist.mp h⟩
  · rintro (h | ⟨rfl, h⟩)
    · exact .inl h
    · exact .inr ⟨_, rfl, List.singleton_sublist.mpr h⟩

/-- The run lemma for one id that the run does not allocate: it is in `memory` at the end
exactly when it was at the start, no `perform_deallocations` of the run finds it pending
from before, and no `perform_deallocations` follows one of the run's `dealloc`s of it. -/
theorem live_run (id : StorageId) :
    ∀ (ops : List StorageOp) {s s' : CudaStorage} {rs : List StorageResult},
      id ∉ allocIds ops → s.run ops = some (rs, s') →
      ((s'.memory id).isSome ↔ (s.memory id).isSome ∧
        ¬ (id ∈ s.deallocations ∧ .performDeallocations ∈ ops) ∧
        ¬ List.Sublist [.dealloc id, .performDeallocations] ops)
  | [], _, _, _, _, hrun => by
      cases hrun
      simp
  | op :: ops, s, _, _, hfresh, hrun => by
      obtain ⟨r, s₁, rs', hop, hrun', rfl⟩ := run_cons_eq_some.mp hrun
      have hrest : id ∉ allocIds ops := fun h =>
        hfresh (((List.sublist_cons_self op ops).filterMap _).subset h)
      rw [dealloc_then_perform_cons, live_run id ops hrest hrun']
      rcases apply_eq_some hop with ⟨id', ptr, size, rfl, -, rfl⟩ | ⟨id', rfl, rfl⟩ |
        ⟨handle, -, rfl, -, hmemory, hdeallocs, -⟩ | ⟨rfl, rfl⟩ | ⟨rfl, rfl⟩
      · have hne : id ≠ id' := fun h => hfresh (by simp [allocIds, StorageOp.allocId?, h])
        simp [Function.update_apply, hne]
      · by_cases hid : id' = id
        · subst hid
          simp only [CudaStorage.dealloc, List.mem_append, List.mem_singleton, or_true,
            true_and, List.mem_cons, true_or, reduceCtorEq, false_or, not_or]
          constructor
          · rintro ⟨hlive, hperform, hsub⟩
            exact ⟨hlive, fun h => hperform h.2, hsub, hperform⟩
          · rintro ⟨hlive, -, hsub, hperform⟩
            exact ⟨hlive, hperform, hsub⟩
        · simp [CudaStorage.dealloc, hid, Ne.symm hid]
      · rw [hmemory, hdeallocs]
        simp
      · simp [CudaStorage.flush]
      · obtain ⟨hdeallocs, hmemory, -⟩ := performDeallocations_spec s
        rw [hmemory, hdeallocs]
        by_cases hid : id ∈ s.deallocations <;> simp [hid]

/-- A run from a storage records only the ids it deallocates on top of the pending ones. -/
theorem deallocations_run :
    ∀ (ops : List StorageOp) {s s' : CudaStorage} {rs : List StorageResult},
      s.run ops = some (rs, s') → ∀ id ∈ s'.deallocations,
        id ∈ s.deallocations ∨ StorageOp.dealloc id ∈ ops
  | [], _, _, _, hrun, id, hid => by
      cases hrun
      exact .inl hid
  | op :: ops, s, _, _, hrun, id, hid => by
      obtain ⟨r, s₁, rs', hop, hrun', rfl⟩ := run_cons_eq_some.mp hrun
      refine (deallocations_run ops hrun' id hid).elim (fun h => ?_) fun h => .inr (.tail _ h)
      rcases apply_eq_some hop with ⟨_, _, _, rfl, -, rfl⟩ | ⟨id', rfl, rfl⟩ |
        ⟨_, _, rfl, -, -, hdeallocs, -⟩ | ⟨rfl, rfl⟩ | ⟨rfl, rfl⟩
      · exact .inl h
      · simp only [CudaStorage.dealloc, List.mem_append, List.mem_singleton] at h
        exact h.imp_right fun heq => by subst heq; exact List.mem_cons_self _ _
      · exact .inl (hdeallocs ▸ h)
      · exact .inl h
      · simp [(performDeallocations_spec s).1] at h

/-! ### Fresh ids -/

/-- `freshAfter` over two lists: the first, then the second after every id the first names. -/
theorem freshAfter_append (seen : List StorageId) (pre post : List StorageOp) :
    freshAfter seen (pre ++ post) =
      (freshAfter seen pre && freshAfter (seen ++ pre.filterMap StorageOp.id?) post) := by
  induction pre generalizing seen with
  | nil => simp [freshAfter]
  | cons op pre ih =>
      rw [List.cons_append]
      simp only [freshAfter, ih, Bool.and_assoc, List.filterMap_cons]
      cases op.id? <;> simp

/-- Fresh ids after `seen`: the allocated ids are distinct and none is in `seen`. -/
theorem allocIds_of_freshAfter :
    ∀ (seen : List StorageId) (ops : List StorageOp), freshAfter seen ops = true →
      (allocIds ops).Nodup ∧ ∀ id ∈ allocIds ops, id ∉ seen
  | _, [], _ => ⟨List.nodup_nil, fun _ h => absurd h (List.not_mem_nil _)⟩
  | seen, op :: ops, h => by
      simp only [freshAfter, Bool.and_eq_true] at h
      obtain ⟨hnodup, hnew⟩ := allocIds_of_freshAfter _ ops h.2
      cases op with
      | alloc id ptr size =>
          simp only [decide_eq_true_eq] at h
          simp only [StorageOp.id?, Option.toList_some] at hnew
          refine ⟨List.nodup_cons.mpr ⟨fun hid => hnew id hid (List.mem_append_right _
            (List.mem_singleton_self _)), hnodup⟩, fun id' hid' => ?_⟩
          rcases List.mem_cons.mp hid' with rfl | hid'
          · exact h.1
          · exact fun hmem => hnew id' hid' (List.mem_append_left _ hmem)
      | _ => exact ⟨hnodup, fun id hid hmem => hnew id hid (List.mem_append_left _ hmem)⟩

/-- The assumption on fresh ids, at one `alloc` of a run: no operation before it names its
id, and no operation after it allocates the id again. -/
theorem FreshIds.at_alloc {pre post : List StorageOp} {id : StorageId} {ptr size : Nat}
    (h : FreshIds (pre ++ .alloc id ptr size :: post)) :
    id ∉ pre.filterMap StorageOp.id? ∧ id ∉ allocIds post := by
  rw [FreshIds, freshAfter_append, Bool.and_eq_true, freshAfter, Bool.and_eq_true,
    decide_eq_true_eq] at h
  refine ⟨by simpa using h.2.1, fun hid => ?_⟩
  exact (allocIds_of_freshAfter _ post h.2.2).2 id hid (by simp [StorageOp.id?])

/-- Deferred deallocation over every run from `CudaStorage::new` whose ids are fresh: no
id is freed twice, and every freed id is one that `alloc` returned; the next
`perform_deallocations` frees each pending id in `memory` and leaves no pending id in it;
and `get` on an allocated id succeeds exactly until a `perform_deallocations` that follows
one of its `dealloc`s. -/
theorem cuda_storage_frees_once (ops : List StorageOp) (hfresh : FreshIds ops)
    (rs : List StorageResult) (s : CudaStorage) (hrun : new.run ops = some (rs, s)) :
    (s.freed.map Prod.fst).Nodup ∧
    (∀ p ∈ s.freed, ∃ size, StorageResult.handle ⟨p.1, .full size⟩ ∈ rs) ∧
    ((∀ id ∈ s.deallocations, s.performDeallocations.memory id = none) ∧
      ∃ newly, s.performDeallocations.freed = s.freed ++ newly ∧
        ∀ id ptr, (id, ptr) ∈ newly ↔ id ∈ s.deallocations ∧ s.memory id = some ptr) ∧
    ∀ pre id ptr size post, ops = pre ++ .alloc id ptr size :: post → ∀ utilization,
      ((s.get ⟨id, utilization⟩).isSome ↔ ¬ List.Sublist [.dealloc id, .performDeallocations] post) := by
  have hsound : Sound (allocIds ops) s :=
    Sound.run ops Sound.new (allocIds_of_freshAfter [] ops hfresh).1 hrun
  obtain ⟨-, hmemory, newly, hfreed, -, hnewly⟩ := performDeallocations_spec s
  refine ⟨hsound.freed_nodup, fun p hp => run_handles ops hrun p.1 (hsound.freed_allocated p hp),
    ⟨fun id hid => by simp [hmemory, hid], newly, hfreed, hnewly⟩, ?_⟩
  rintro pre id ptr size post rfl utilization
  obtain ⟨hpre, hpost⟩ := FreshIds.at_alloc hfresh
  obtain ⟨rs₁, s₁, rs₂, hrun₁, hrun₂, -⟩ := run_append_eq_some hrun
  obtain ⟨r, s₂, rs₃, hop, hrun₃, -⟩ := run_cons_eq_some.mp hrun₂
  obtain ⟨-, rfl⟩ : r = _ ∧ s₂ = _ := by simpa [StorageOp.apply, alloc] using hop.symm
  have hpending : id ∉ s₁.deallocations := fun hid =>
    (deallocations_run pre hrun₁ id hid).elim (List.not_mem_nil _)
      fun hmem => hpre (List.mem_filterMap.mpr ⟨_, hmem, rfl⟩)
  rw [get_isSome, live_run id post hpost hrun₃]
  simp [alloc, Function.update_apply, hpending]

/-- Ids `0` and `1` allocated; `0` deallocated twice and the unknown `7` once before the
first flush point, `0` once more before the second. Storage `0` is freed once and `get`
fails on it; storage `1` is still there. -/
theorem cuda_storage_frees_once_repeated_dealloc :
    ∃ rs s, new.run [.alloc 0 4096 16, .alloc 1 8192 32, .dealloc 0, .dealloc 0, .dealloc 7,
        .get ⟨1, .slice 8 8⟩, .performDeallocations, .dealloc 0, .performDeallocations] =
        some (rs, s) ∧
      (s.freed.map Prod.fst).Nodup ∧ (s.get ⟨0, .full 16⟩).isSome = false ∧
      (s.get ⟨1, .full 32⟩).isSome := by
  obtain ⟨rs, s, h⟩ : ∃ rs s, new.run [.alloc 0 4096 16, .alloc 1 8192 32, .dealloc 0,
      .dealloc 0, .dealloc 7, .get ⟨1, .slice 8 8⟩, .performDeallocations, .dealloc 0,
      .performDeallocations] = some (rs, s) := ⟨_, _, rfl⟩
  have hfrees := cuda_storage_frees_once _ (by decide) rs s h
  refine ⟨rs, s, h, hfrees.1, Bool.eq_false_iff.mpr fun hsome =>
    (hfrees.2.2.2 [] 0 4096 16 _ rfl (.full 16)).mp hsome (by decide),
    (hfrees.2.2.2 [.alloc 0 4096 16] 1 8192 32 _ rfl (.full 32)).mpr (by decide)⟩

/-! ### Active slices -/

/-- The drain loop of `perform_deallocations` leaves `activate_slices` alone. -/
theorem activateSlices_foldl_deallocate (ids : List StorageId) (s : CudaStorage) :
    (ids.foldl deallocate s).activateSlices = s.activateSlices := by
  induction ids generalizing s with
  | nil => rfl
  | cons i ids ih =>
      rw [List.foldl_cons, ih]
      simp only [deallocate]
      split <;> rfl

/-- `get` on a slice records the offset pointer it returns under the slice's key. -/
theorem get_slice {s s' : CudaStorage} {id : StorageId} {offset size : Nat}
    {resource : CudaResource} (h : s.get ⟨id, .slice offset size⟩ = some (resource, s')) :
    resource.kind = .slice size offset ∧
      s'.activateSlices ⟨resource.ptr, resource.kind⟩ = some resource.ptr := by
  simp only [get] at h
  split at h
  · cases h
  · cases h
    exact ⟨rfl, by simp⟩

/-- The step lemma of an active slice: every operation but `flush` keeps the entry of a
slice key, whose value is the key's pointer. -/
theorem activeSlice_apply {s s' : CudaStorage} {op : StorageOp} {r : StorageResult}
    (hop : op.apply s = some (r, s')) (hflush : op ≠ .flush) {key : ActiveResource}
    (hkey : s.activateSlices key = some key.ptr) : s'.activateSlices key = some key.ptr := by
  rcases apply_eq_some hop with ⟨_, _, _, -, -, rfl⟩ | ⟨_, -, rfl⟩ |
    ⟨_, resource, -, -, -, -, -, hslices | hslices⟩ | ⟨rfl, -⟩ | ⟨-, rfl⟩
  · exact hkey
  · exact hkey
  · rwa [hslices]
  · rw [hslices, Function.update_apply]
    split_ifs with heq
    · rw [heq]
    · exact hkey
  · exact absurd rfl hflush
  · rwa [performDeallocations, activateSlices_foldl_deallocate]

/-- A slice resource that `get` hands out keeps its pointer in `activate_slices` through
every later operation up to the next `flush`: the pointer stays alive until the task that
uses it is sent, as the comment in `get` requires. -/
theorem slice_kept_until_flush {s s₁ s₂ : CudaStorage} {id : StorageId} {offset size : Nat}
    {resource : CudaResource} {ops : List StorageOp} {rs : List StorageResult}
    (hget : s.get ⟨id, .slice offset size⟩ = some (resource, s₁))
    (hflush : StorageOp.flush ∉ ops) (hrun : s₁.run ops = some (rs, s₂)) :
    resource.kind = .slice size offset ∧
      s₂.activateSlices ⟨resource.ptr, resource.kind⟩ = some resource.ptr := by
  obtain ⟨hkind, hkey⟩ := get_slice hget
  refine ⟨hkind, ?_⟩
  clear hget
  induction ops generalizing s₁ rs with
  | nil =>
      cases hrun
      exact hkey
  | cons op ops ih =>
      obtain ⟨r, t, rs', hop, hrun', -⟩ := run_cons_eq_some.mp hrun
      exact ih (fun h => hflush (.tail _ h)) hrun'
        (activeSlice_apply hop (fun h => hflush (h ▸ .head _)) hkey)

/-- A slice of storage `0`, then a `dealloc` and a `perform_deallocations` of that storage:
the pointer of the slice stays recorded. -/
theorem slice_kept_until_flush_after_free :
    ∃ resource s₁ rs s₂, (new.alloc 0 4096 16).2.get ⟨0, .slice 8 8⟩ = some (resource, s₁) ∧
      s₁.run [.dealloc 0, .performDeallocations] = some (rs, s₂) ∧
      resource.kind = .slice 8 8 ∧
      s₂.activateSlices ⟨resource.ptr, resource.kind⟩ = some resource.ptr := by
  obtain ⟨resource, s₁, hget⟩ : ∃ resource s₁,
      (new.alloc 0 4096 16).2.get ⟨0, .slice 8 8⟩ = some (resource, s₁) := ⟨_, _, rfl⟩
  obtain ⟨rs, s₂, hrun⟩ : ∃ rs s₂, s₁.run [.dealloc 0, .performDeallocations] = some (rs, s₂) := by
    simp only [run, StorageOp.apply, Option.map_some']
    exact ⟨_, _, rfl⟩
  exact ⟨resource, s₁, rs, s₂, hget, hrun, slice_kept_until_flush hget (by decide) hrun⟩

end CudaStorage

end CubeCL.Cuda
