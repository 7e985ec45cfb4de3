import CubeCL.Wgpu.Batching
import Mathlib.Data.List.Nodup

/-!
# `CubeCL.Wgpu.PipelineCache`: one compilation per kernel key

`WgpuServer::pipeline` looks the key (`kernel.id()` with the execution mode that
`KernelId::mode` sets) up in `pipelines`, and on a miss calls `compile_source` and inserts
the new pipeline. The model names a pipeline by the position of its compilation in the
log `compiled`.

`Cached` is the agreement of the cache with the log: the log has no repeat, and the cache
maps each logged key to the position of its compilation and no other key to anything.
`Cached.pipeline` is the spec of `pipeline` on such a state, `Cached.run` the run lemma.
Only `execute` touches either, and only through `pipeline` (`compiled_apply`), so the log
only grows and no entry of the cache is ever removed or changed (`lookup_run`).

`pipeline_cache_compiles_once` states that after any run the log holds each
executed key exactly once; an `execute` compiles exactly when its key was never executed
before; and its dispatch binds a pipeline that stays the compilation of its key in every
later state.
-/

set_option autoImplicit false

namespace CubeCL.Wgpu

/-- The key an operation compiles for: `execute`'s kernel and mode. -/
def ServerOp.key? : ServerOp → Option KernelId
  | .execute kernel _ _ mode => some ⟨kernel, mode⟩
  | _ => none

namespace WgpuServer

variable {μ : Type} (mm : MemoryManagement μ)

/-- The cache agrees with the compilation log. -/
structure Cached (s : WgpuServer μ) : Prop where
  nodup : s.compiled.Nodup
  lookup_eq : ∀ k, s.pipelines.lookup k =
    if k ∈ s.compiled then some (s.compiled.indexOf k) else none

/-- A new server's cache and log are both empty. -/
theorem Cached.new (m : μ) (tasksMax : Nat) : (WgpuServer.new m tasksMax).Cached :=
  ⟨List.nodup_nil, fun _ => rfl⟩

/-- The spec of `pipeline` on a consistent cache: compile the key on a miss only, leave the
cache mapping the key to the pipeline returned, and keep the cache consistent. -/
theorem Cached.pipeline {s : WgpuServer μ} (h : s.Cached) (kernel : Nat) (mode : ExecutionMode) :
    (s.pipeline kernel mode).2.compiled =
        s.compiled ++ (if ⟨kernel, mode⟩ ∈ s.compiled then [] else [⟨kernel, mode⟩]) ∧
      (s.pipeline kernel mode).2.pipelines.lookup ⟨kernel, mode⟩ =
        some (s.pipeline kernel mode).1 ∧
      (s.pipeline kernel mode).2.Cached := by
  simp only [WgpuServer.pipeline]
  have hlookup := h.lookup_eq ⟨kernel, mode⟩
  split_ifs at hlookup with hmem
  · simpa only [hlookup, if_pos hmem, List.append_nil, true_and] using h
  · simp only [hlookup, if_neg hmem, true_and]
    refine ⟨by simp [List.lookup_append, hlookup], ?_, fun k => ?_⟩
    · exact h.nodup.append (List.nodup_singleton _) (List.disjoint_singleton.mpr hmem)
    · simp only [List.lookup_append, h.lookup_eq, List.mem_append, List.mem_singleton]
      by_cases hk : k ∈ s.compiled
      · simp [hk, List.indexOf_append_of_mem hk]
      · by_cases hkey : k = ⟨kernel, mode⟩
        · subst hkey
          simp [hk, List.indexOf_append_of_not_mem hk]
        · have hne : (k == ⟨kernel, mode⟩) = false := beq_eq_false_iff_ne.mpr hkey
          simp [hk, hkey, List.lookup_cons, hne]

/-- `execute` changes the cache and the log as its `pipeline` call does, and records a
dispatch with the pipeline that call returns. -/
theorem execute_pipeline (s : WgpuServer μ) (kernel : Nat) (count : CubeCount)
    (bindings : List StorageId) (mode : ExecutionMode) :
    (s.execute kernel count bindings mode).compiled = (s.pipeline kernel mode).2.compiled ∧
      (s.execute kernel count bindings mode).pipelines = (s.pipeline kernel mode).2.pipelines ∧
      (s.execute kernel count bindings mode).recorded =
        s.recorded ++ [.dispatch (s.pipeline kernel mode).1 bindings count] := by
  obtain ⟨compiled, pipelines, hp⟩ := pipeline_eq s kernel mode
  simp only [execute, hp]
  split_ifs <;> simp [recorded]

/-- Only `execute` touches the cache and the log, through `pipeline`. -/
theorem compiled_apply (s : WgpuServer μ) (op : ServerOp) :
    (∃ kernel count bindings mode, op = .execute kernel count bindings mode) ∨
      (op.key? = none ∧ (op.apply mm s).2.compiled = s.compiled ∧
        (op.apply mm s).2.pipelines = s.pipelines) := by
  cases op with
  | execute kernel count bindings mode => exact .inl ⟨_, _, _, _, rfl⟩
  | read binding => exact .inr ⟨rfl, rfl, rfl⟩
  | create size =>
      simp only [ServerOp.apply, create]
      split_ifs <;> exact .inr ⟨rfl, rfl, rfl⟩
  | empty size => exact .inr ⟨rfl, rfl, rfl⟩
  | sync syncType => exact .inr ⟨rfl, rfl, rfl⟩

/-- The step lemma: one operation keeps the cache consistent and extends the log with its
key when the key is new. -/
theorem Cached.apply {s : WgpuServer μ} (h : s.Cached) (op : ServerOp) :
    (op.apply mm s).2.Cached ∧ s.compiled <+: (op.apply mm s).2.compiled ∧
      ∀ k, k ∈ (op.apply mm s).2.compiled ↔ k ∈ s.compiled ∨ op.key? = some k := by
  rcases compiled_apply mm s op with ⟨kernel, count, bindings, mode, rfl⟩ | ⟨hkey, hc, hp⟩
  · obtain ⟨hcompiled, -, hcached⟩ := h.pipeline kernel mode
    obtain ⟨hc, hp, -⟩ := execute_pipeline s kernel count bindings mode
    simp only [ServerOp.apply, hc, hcompiled]
    refine ⟨⟨hc ▸ hcached.nodup, fun k => ?_⟩, List.prefix_append _ _, fun k => ?_⟩
    · simpa only [hc, hp] using hcached.lookup_eq k
    · by_cases hmem : (⟨kernel, mode⟩ : KernelId) ∈ s.compiled
      · simp only [hmem, if_true, List.append_nil, ServerOp.key?, Option.some.injEq]
        exact ⟨.inl, fun hk => hk.elim id (· ▸ hmem)⟩
      · simp [hmem, ServerOp.key?, eq_comm]
  · refine ⟨⟨hc ▸ h.nodup, fun k => ?_⟩, hc ▸ List.prefix_refl _, fun k => ?_⟩
    · rw [hc, hp]
      exact h.lookup_eq k
    · simp [hc, hkey]

/-- The run lemma: the cache stays consistent and the log gains each new key of the run's
executes, in the order of their first execute. -/
theorem Cached.run :
    ∀ (ops : List ServerOp) {s : WgpuServer μ}, s.Cached →
      (s.run mm ops).2.Cached ∧ s.compiled <+: (s.run mm ops).2.compiled ∧
        ∀ k, k ∈ (s.run mm ops).2.compiled ↔ k ∈ s.compiled ∨ k ∈ ops.filterMap ServerOp.key?
  | [], _, h => ⟨h, List.prefix_refl _, by simp⟩
  | op :: ops, s, h => by
      obtain ⟨h₁, hprefix₁, hstep⟩ := h.apply mm op
      obtain ⟨hrun, hprefix, hmem⟩ := Cached.run ops h₁
      rw [run_cons]
      refine ⟨hrun, hprefix₁.trans hprefix, fun k => ?_⟩
      rw [hmem, hstep, or_assoc, List.filterMap_cons]
      cases op.key? <;> simp [eq_comm]

/-- A consistent cache answers a key's lookup with the position of its compilation. -/
theorem Cached.lookup_eq_some {s : WgpuServer μ} (h : s.Cached) (k : KernelId) (p : Nat) :
    s.pipelines.lookup k = some p ↔ s.compiled[p]? = some k := by
  rw [h.lookup_eq]
  constructor
  · split_ifs with hk
    · rintro ⟨⟩
      exact List.getElem?_eq_some_iff.mpr ⟨List.indexOf_lt_length.mpr hk, List.getElem_indexOf _⟩
    · rintro ⟨⟩
  · intro hp
    obtain ⟨hlt, rfl⟩ := List.getElem?_eq_some_iff.mp hp
    rw [if_pos (List.getElem_mem hlt), List.indexOf_getElem h.nodup]

/-- No operation removes or changes an entry of a consistent cache. -/
theorem lookup_run {s : WgpuServer μ} (h : s.Cached) (ops : List ServerOp) (k : KernelId)
    (p : Nat) (hp : s.pipelines.lookup k = some p) : (s.run mm ops).2.pipelines.lookup k = some p := by
  obtain ⟨hrun, ⟨rest, hrest⟩, -⟩ := Cached.run mm ops h
  rw [hrun.lookup_eq_some, ← hrest]
  exact (List.getElem?_append_left (List.getElem?_eq_some_iff.mp ((h.lookup_eq_some k p).mp hp)).1).trans
    ((h.lookup_eq_some k p).mp hp)

/-- The pipeline cache over every run from a new server: the log holds each executed key
exactly once; an `execute` after any run compiles exactly when its key was never executed
in that run; and the pipeline its dispatch binds is the compilation of its key, in every
later state. -/
theorem pipeline_cache_compiles_once (m : μ) (tasksMax : Nat) (ops : List ServerOp)
    (kernel : Nat) (count : CubeCount) (bindings : List StorageId) (mode : ExecutionMode) :
    let s := ((WgpuServer.new m tasksMax).run mm ops).2
    let s' := s.execute kernel count bindings mode
    (∀ k, s.compiled.count k = if k ∈ ops.filterMap ServerOp.key? then 1 else 0) ∧
    s'.compiled = s.compiled ++
      (if ⟨kernel, mode⟩ ∈ ops.filterMap ServerOp.key? then [] else [⟨kernel, mode⟩]) ∧
    ∃ p, s'.recorded = s.recorded ++ [.dispatch p bindings count] ∧
      ∀ ops', (s'.run mm ops').2.compiled[p]? = some ⟨kernel, mode⟩ ∧
        (s'.run mm ops').2.pipelines.lookup ⟨kernel, mode⟩ = some p := by
  dsimp only
  obtain ⟨h, -, hmem⟩ := Cached.run mm ops (Cached.new m tasksMax)
  set s := ((WgpuServer.new m tasksMax).run mm ops).2
  have hmem' : ∀ k, k ∈ s.compiled ↔ k ∈ ops.filterMap ServerOp.key? := fun k =>
    (hmem k).trans (or_iff_right (List.not_mem_nil _))
  obtain ⟨hcompiled, hfound, -⟩ := h.pipeline kernel mode
  obtain ⟨hc, hp, hrecorded⟩ := execute_pipeline s kernel count bindings mode
  have h' : (s.execute kernel count bindings mode).Cached :=
    (h.apply mm (.execute kernel count bindings mode)).1
  refine ⟨fun k => ?_, by rw [hc, hcompiled]; simp only [hmem'], _, hrecorded, fun ops' => ?_⟩
  · by_cases hk : k ∈ ops.filterMap ServerOp.key?
    · rw [if_pos hk, List.count_eq_one_of_mem h.nodup ((hmem' k).mpr hk)]
    · rw [if_neg hk, List.count_eq_zero_of_not_mem (mt (hmem' k).mp hk)]
  · have hlookup := lookup_run mm h' ops' _ _ (hp ▸ hfound)
    exact ⟨((Cached.run mm ops' h').1.lookup_eq_some _ _).mp hlookup, hlookup⟩

end WgpuServer

end CubeCL.Wgpu
