import CubeCL.Wgpu.Server

/-!
# `CubeCL.Wgpu.StorageUsed`: the storages of the pending commands

`create` reserves the memory of new data outside `compute_storage_used`, so that the write
it stages on the queue, which runs at the next submission before the encoder's commands,
lands in no storage that a pending command uses. `execute` pushes the storage of each
binding into the set and every submission clears it.

`Tracked` says that every storage bound by a command of the encoder is in the set.
`Tracked.run` proves it of every reachable state, `usedStorage_run` that the set only
grows until the next submission, and `create_avoids_bindings` that an honouring `reserve`
then keeps `create` away from every pending binding. `storage_used_tracks_bindings`
assembles the three.

A dispatch with a `CubeCount::Dynamic` count also reads its workgroup counts from the
buffer of the count's binding (`dispatch_workgroups_indirect`), and `execute` does not
push that storage: `get_resource` only looks the binding up. `create_reuses_dispatch_args`
shows a `reserve` that honours its exclusion list hand that storage to `create`, which stages a write into the buffer the
pending dispatch reads its arguments from.
-/

set_option autoImplicit false

namespace CubeCL.Wgpu

/-- The storages of a command's bind group: a dispatch's bindings, a copy's source. -/
def Command.bindingsUsed : Command → List StorageId
  | .dispatch _ bindings _ => bindings
  | .copy source => [source]

namespace WgpuServer

variable {μ : Type} (mm : MemoryManagement μ)

/-- Every storage bound by a pending command is in `compute_storage_used`. -/
def Tracked (s : WgpuServer μ) : Prop :=
  ∀ c ∈ s.encoder, ∀ b ∈ c.bindingsUsed, b ∈ s.computeStorageUsed

/-- A new server has no pending command. -/
theorem Tracked.new (m : μ) (tasksMax : Nat) : (WgpuServer.new m tasksMax).Tracked :=
  fun _ h => absurd h (List.not_mem_nil _)

/-- A flush leaves no pending command. -/
theorem Tracked.sync (s : WgpuServer μ) (syncType : SyncType) : (s.sync syncType).Tracked :=
  fun _ h => absurd h (List.not_mem_nil _)

/-- The step lemma of `Tracked`. -/
theorem Tracked.apply {s : WgpuServer μ} (h : s.Tracked) (op : ServerOp) :
    (op.apply mm s).2.Tracked := by
  cases op with
  | execute kernel count bindings mode =>
      obtain ⟨pipeline, compiled, pipelines, hexec⟩ := execute_eq s kernel count bindings mode
      simp only [ServerOp.apply, hexec]
      split_ifs
      · exact Tracked.sync _ _
      · intro c hc b hb
        simp only [List.mem_append, List.mem_singleton] at hc ⊢
        rcases hc with hc | rfl
        · exact .inl (h c hc b hb)
        · exact .inr hb
  | read binding =>
      simp only [ServerOp.apply, read]
      exact Tracked.sync _ _
  | create size =>
      simp only [ServerOp.apply, create]
      split_ifs <;> exact h
  | empty size => exact h
  | sync syncType => exact Tracked.sync s syncType

/-- The run lemma of `Tracked`. -/
theorem Tracked.run :
    ∀ (ops : List ServerOp) {s : WgpuServer μ}, s.Tracked → (s.run mm ops).2.Tracked
  | [], _, h => h
  | op :: ops, _, h => Tracked.run ops (h.apply mm op)

/-- One operation either keeps the set and adds to its end, or submits a batch and empties
it. -/
theorem usedStorage_apply (s : WgpuServer μ) (op : ServerOp) :
    s.computeStorageUsed <+: (op.apply mm s).2.computeStorageUsed ∨
      ((op.apply mm s).2.computeStorageUsed = [] ∧
        (op.apply mm s).2.queue.length = s.queue.length + 1) := by
  cases op with
  | execute kernel count bindings mode =>
      obtain ⟨pipeline, compiled, pipelines, hexec⟩ := execute_eq s kernel count bindings mode
      simp only [ServerOp.apply, hexec]
      split_ifs
      · exact .inr ⟨rfl, by simp⟩
      · exact .inl (List.prefix_append _ _)
  | read binding => exact .inr ⟨rfl, by simp [ServerOp.apply, read, clearComputePass]⟩
  | create size =>
      simp only [ServerOp.apply, create]
      split_ifs <;> exact .inl (List.prefix_refl _)
  | empty size => exact .inl (List.prefix_refl _)
  | sync syncType => exact .inr ⟨rfl, by simp [ServerOp.apply]⟩

/-- No operation takes a batch off the queue. -/
theorem queue_length_le_apply (s : WgpuServer μ) (op : ServerOp) :
    s.queue.length ≤ (op.apply mm s).2.queue.length := by
  cases op with
  | execute kernel count bindings mode =>
      obtain ⟨pipeline, compiled, pipelines, hexec⟩ := execute_eq s kernel count bindings mode
      simp only [ServerOp.apply, hexec]
      split_ifs <;> simp
  | read binding => simp [ServerOp.apply, read, clearComputePass]
  | create size =>
      simp only [ServerOp.apply, create]
      split_ifs <;> exact le_rfl
  | empty size => exact le_rfl
  | sync syncType => simp [ServerOp.apply]

/-- No run takes a batch off the queue. -/
theorem queue_length_le_run (s : WgpuServer μ) (ops : List ServerOp) :
    s.queue.length ≤ (s.run mm ops).2.queue.length := by
  induction ops generalizing s with
  | nil => exact le_rfl
  | cons op ops ih => exact (queue_length_le_apply mm s op).trans (ih _)

/-- The run lemma of the set: until a batch is submitted, the set only grows. -/
theorem usedStorage_run (s : WgpuServer μ) (ops : List ServerOp)
    (hnone : (s.run mm ops).2.queue.length = s.queue.length) :
    s.computeStorageUsed <+: (s.run mm ops).2.computeStorageUsed := by
  induction ops generalizing s with
  | nil => exact List.prefix_refl _
  | cons op ops ih =>
      have hle := queue_length_le_run mm (op.apply mm s).2 ops
      rw [run_cons] at hnone ⊢
      rcases usedStorage_apply mm s op with hprefix | ⟨-, hsubmit⟩
      · exact hprefix.trans (ih _ (by have := queue_length_le_apply mm s op; omega))
      · omega

/-- With an honouring `reserve`, `create` reserves no storage a pending command binds, and
stages its write, if any, into the storage it reserved. -/
theorem create_avoids_bindings (hmm : mm.Honours) {s : WgpuServer μ} (h : s.Tracked)
    (size : Nat) :
    (∀ c ∈ s.encoder, (s.create mm size).1 ∉ c.bindingsUsed) ∧
      (s.create mm size).2.encoder = s.encoder ∧
      (s.create mm size).2.staged = s.staged ++ if size = 0 then [] else [(s.create mm size).1] := by
  refine ⟨fun c hc hb => hmm s.memoryManagement size s.computeStorageUsed (h c hc _ hb), ?_⟩
  simp only [create]
  split_ifs <;> simp

/-- Every reachable state tracks the bindings of its pending commands; until a submission
the set only grows; and `create`, given an honouring `reserve`, avoids every pending
binding and writes only into the storage it reserved. -/
theorem storage_used_tracks_bindings (m : μ) (tasksMax : Nat) (ops : List ServerOp) :
    let s := ((WgpuServer.new m tasksMax).run mm ops).2
    (∀ c ∈ s.encoder, ∀ b ∈ c.bindingsUsed, b ∈ s.computeStorageUsed) ∧
    (∀ ops', (s.run mm ops').2.queue.length = s.queue.length →
      s.computeStorageUsed <+: (s.run mm ops').2.computeStorageUsed) ∧
    (mm.Honours → ∀ size,
      (∀ c ∈ s.encoder, (s.create mm size).1 ∉ c.bindingsUsed) ∧
      (s.create mm size).2.encoder = s.encoder ∧
      (s.create mm size).2.staged = s.staged ++ if size = 0 then [] else [(s.create mm size).1]) :=
  have h := Tracked.run mm ops (Tracked.new m tasksMax)
  ⟨h, usedStorage_run mm _, fun hmm => create_avoids_bindings mm hmm h⟩

/-- A memory management that reuses storage `0` unless it is excluded, and otherwise opens
a storage past every excluded one. -/
def reuseFirst : MemoryManagement Unit where
  reserve _ _ exclude := (if 0 ∈ exclude then exclude.foldr (· + ·) 0 + 1 else 0, ())

/-- A member of a list of naturals is at most their sum. -/
theorem le_foldr_add_of_mem {x : Nat} : ∀ {l : List Nat}, x ∈ l → x ≤ l.foldr (· + ·) 0
  | _ :: _, .head _ => Nat.le_add_right _ _
  | _ :: _, .tail _ h => Nat.le_trans (le_foldr_add_of_mem h) (Nat.le_add_left _ _)

/-- `reuseFirst` honours its exclusion list. -/
theorem reuseFirst_honours : reuseFirst.Honours := by
  intro _ _ exclude
  simp only [reuseFirst]
  split_ifs with h0
  · exact fun hmem => Nat.not_succ_le_self _ (le_foldr_add_of_mem hmem)
  · exact h0

/-- With the default `tasks_max` of `16`, a dynamic dispatch reading its arguments from
storage `0` with binding `1`, then a `create` of four bytes: `reserve`, which honours its
exclusion list `[1]`, returns storage `0`, and the write of the data is staged into the
buffer the pending dispatch reads its workgroup counts from. -/
theorem create_reuses_dispatch_args :
    reuseFirst.Honours ∧
      let run := (WgpuServer.new () 16).run reuseFirst
        [.execute 0 (.dynamic 0) [1] .checked, .create 4]
      run.1 = [.unit, .handle 0] ∧ run.2.encoder = [.dispatch 0 [1] (.dynamic 0)] ∧
        (Command.dispatch 0 [1] (.dynamic 0)).storagesUsed = [1, 0] ∧
        run.2.computeStorageUsed = [1] ∧ run.2.staged = [0] :=
  ⟨reuseFirst_honours, rfl, rfl, rfl, rfl, rfl⟩

end WgpuServer

end CubeCL.Wgpu
