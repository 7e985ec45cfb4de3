import CubeCL.Wgpu.Server

/-!
# `CubeCL.Wgpu.Batching`: how the server batches dispatches

`execute` counts the dispatches recorded since the last submission in `tasks_count` and
flushes when the count reaches `tasks_max`; `read` and `sync` flush too. With
`T = max tasks_max 1` (a `tasks_max` of `0` flushes after every dispatch):

* `Batched`: the invariant of every reachable state. `tasks_count` is the number of
  dispatches in the encoder and is below `T`, and no submitted batch holds more than `T`
  dispatches. `Batched.apply` is its step lemma, `Batched.run` its run lemma.
* `recorded_run`: the commands on the queue and in the encoder are the dispatches and
  copies of the run's `execute` and `read` calls, in call order: none is lost, duplicated
  or reordered.
* `execute_queue_length`: `execute` submits exactly when its dispatch fills the batch.
* `executes_then_sync`: `k` executes from a new server and a `sync` make
  `k / T + 1` submissions.
* `wgpu_batching` assembles these, with the place of the copy that `read` records.
-/

set_option autoImplicit false

namespace CubeCL.Wgpu

/-- What the queue and the encoder hold, without the pipelines: a dispatch's bindings and
count, or a copy's source. -/
inductive Call where
  | dispatch (bindings : List StorageId) (count : CubeCount)
  | copy (source : StorageId)
  deriving DecidableEq, Repr

/-- The call a command records. -/
def Command.call : Command → Call
  | .dispatch _ bindings count => .dispatch bindings count
  | .copy source => .copy source

/-- The call an operation records, if any. -/
def ServerOp.call? : ServerOp → Option Call
  | .execute _ count bindings _ => some (.dispatch bindings count)
  | .read binding => some (.copy binding)
  | _ => none

namespace WgpuServer

variable {μ : Type}

/-- Every command the server has recorded, in order: the submitted ones, then the encoder. -/
def recorded (s : WgpuServer μ) : List Command := s.queue.flatMap Submission.commands ++ s.encoder

/-- A flush moves the encoder to the queue: nothing recorded is lost or added. -/
@[simp]
theorem recorded_sync (s : WgpuServer μ) (syncType : SyncType) :
    (s.sync syncType).recorded = s.recorded := by
  simp [recorded, sync, clearComputePass]

/-- The invariant of batching, with `T = max tasks_max 1`. -/
structure Batched (s : WgpuServer μ) : Prop where
  tasksCount_eq : s.tasksCount = s.encoder.countP Command.isDispatch
  tasksCount_lt : s.tasksCount < max s.tasksMax 1
  batch_le : ∀ sub ∈ s.queue, sub.commands.countP Command.isDispatch ≤ max s.tasksMax 1

/-- A new server is batched: no dispatch is pending and the queue is empty. -/
theorem Batched.new (m : μ) (tasksMax : Nat) : (WgpuServer.new m tasksMax).Batched :=
  ⟨rfl, Nat.lt_of_lt_of_le Nat.one_pos (le_max_right _ _), fun _ h => absurd h (List.not_mem_nil _)⟩

/-- A flush keeps the invariant: it submits the encoder, which holds fewer than `T`
dispatches, or exactly `T` when `execute` has just filled it. -/
theorem Batched.sync {s : WgpuServer μ}
    (hbatch : ∀ sub ∈ s.queue, sub.commands.countP Command.isDispatch ≤ max s.tasksMax 1)
    (hencoder : s.encoder.countP Command.isDispatch ≤ max s.tasksMax 1) (syncType : SyncType) :
    (s.sync syncType).Batched := by
  refine ⟨rfl, Nat.lt_of_lt_of_le Nat.one_pos (le_max_right _ _), fun sub hsub => ?_⟩
  simp only [WgpuServer.sync, clearComputePass, List.mem_append, List.mem_singleton] at hsub
  rcases hsub with hsub | rfl
  · exact hbatch sub hsub
  · exact hencoder

/-- The step lemma of `Batched`. -/
theorem Batched.apply (mm : MemoryManagement μ) {s : WgpuServer μ} (h : s.Batched)
    (op : ServerOp) : (op.apply mm s).2.Batched := by
  cases op with
  | execute kernel count bindings mode =>
      obtain ⟨pipeline, compiled, pipelines, hexec⟩ := execute_eq s kernel count bindings mode
      simp only [ServerOp.apply, hexec]
      have hcount : (s.encoder ++ [Command.dispatch pipeline bindings count]).countP
          Command.isDispatch = s.tasksCount + 1 := by
        simp [h.tasksCount_eq, Command.isDispatch]
      split_ifs with hfull
      · refine Batched.sync ?_ ?_ _
        · exact h.batch_le
        · have := h.tasksCount_lt
          simp only
          omega
      · exact ⟨hcount.symm, by simp only; omega, h.batch_le⟩
  | read binding =>
      simp only [ServerOp.apply, read]
      refine Batched.sync ?_ ?_ _
      · exact h.batch_le
      have := h.tasksCount_lt
      simp [clearComputePass, ← h.tasksCount_eq, Command.isDispatch]
      omega
  | create size =>
      simp only [ServerOp.apply, create]
      split_ifs <;> exact ⟨h.tasksCount_eq, h.tasksCount_lt, h.batch_le⟩
  | empty size => exact ⟨h.tasksCount_eq, h.tasksCount_lt, h.batch_le⟩
  | sync syncType =>
      exact Batched.sync h.batch_le (h.tasksCount_eq ▸ h.tasksCount_lt.le) syncType

/-- The run lemma of `Batched`. -/
theorem Batched.run (mm : MemoryManagement μ) :
    ∀ (ops : List ServerOp) {s : WgpuServer μ}, s.Batched → (s.run mm ops).2.Batched
  | [], _, h => h
  | op :: ops, _, h => Batched.run mm ops (h.apply mm op)

/-- One operation appends its call, if any, to the recorded commands. -/
theorem recorded_apply (mm : MemoryManagement μ) (s : WgpuServer μ) (op : ServerOp) :
    (op.apply mm s).2.recorded.map Command.call =
      s.recorded.map Command.call ++ op.call?.toList := by
  cases op with
  | execute kernel count bindings mode =>
      obtain ⟨pipeline, compiled, pipelines, hexec⟩ := execute_eq s kernel count bindings mode
      simp only [ServerOp.apply, hexec]
      split_ifs <;> simp [recorded, Command.call, ServerOp.call?]
  | read binding => simp [ServerOp.apply, read, recorded, clearComputePass, Command.call,
      ServerOp.call?]
  | create size =>
      simp only [ServerOp.apply, create]
      split_ifs <;> simp [recorded, ServerOp.call?]
  | empty size => simp [ServerOp.apply, empty, recorded, ServerOp.call?]
  | sync syncType => simp [ServerOp.apply, ServerOp.call?]

/-- The run lemma: a run appends the calls of its operations, in order. -/
theorem recorded_run (mm : MemoryManagement μ) :
    ∀ (ops : List ServerOp) (s : WgpuServer μ),
      (s.run mm ops).2.recorded.map Command.call =
        s.recorded.map Command.call ++ ops.filterMap ServerOp.call?
  | [], s => by simp
  | op :: ops, s => by
      rw [run_cons, recorded_run mm ops, recorded_apply, List.append_assoc, List.filterMap_cons]
      cases op.call? <;> rfl

/-- On a batched server, `execute` submits one batch exactly when its dispatch brings the
count to `T`, and then starts the count afresh. -/
theorem execute_submits {s : WgpuServer μ} (h : s.Batched) (kernel : Nat)
    (count : CubeCount) (bindings : List StorageId) (mode : ExecutionMode) :
    (s.execute kernel count bindings mode).queue.length =
        s.queue.length + (if s.tasksCount + 1 = max s.tasksMax 1 then 1 else 0) ∧
      (s.execute kernel count bindings mode).tasksCount =
        if s.tasksCount + 1 = max s.tasksMax 1 then 0 else s.tasksCount + 1 := by
  obtain ⟨pipeline, compiled, pipelines, hexec⟩ := execute_eq s kernel count bindings mode
  have := h.tasksCount_lt
  rw [hexec]
  split_ifs with hfull heq heq
  · simp
  · omega
  · omega
  · exact ⟨rfl, rfl⟩

/-- One more dispatch on top of `j`: the quotient and the remainder by `T` step as the
server's queue length and task count do. -/
theorem succ_div_mod (j : Nat) {t : Nat} (ht : 0 < t) :
    (j + 1) / t = j / t + (if j % t + 1 = t then 1 else 0) ∧
      (j + 1) % t = if j % t + 1 = t then 0 else j % t + 1 := by
  have hdiv := Nat.div_add_mod j t
  have hlt := Nat.mod_lt j ht
  split_ifs with hfull
  · exact (Nat.div_mod_unique ht).2 ⟨by rw [Nat.mul_add_one]; omega, ht⟩
  · exact (Nat.div_mod_unique ht).2 ⟨by simp only [Nat.add_zero]; omega, by omega⟩

/-- From a batched state with no pending dispatch, `j` executes submit `j / T` batches and
leave `j % T` dispatches pending. -/
theorem executes_queue (mm : MemoryManagement μ) {s : WgpuServer μ} (h : s.Batched)
    (hidle : s.tasksCount = 0) (kernel : Nat) (count : CubeCount) (bindings : List StorageId)
    (mode : ExecutionMode) (j : Nat) :
    (s.run mm (List.replicate j (.execute kernel count bindings mode))).2.queue.length =
        s.queue.length + j / max s.tasksMax 1 ∧
      (s.run mm (List.replicate j (.execute kernel count bindings mode))).2.tasksCount =
        j % max s.tasksMax 1 := by
  induction j with
  | zero => simp [hidle]
  | succ j ih =>
      rw [List.replicate_succ', run_append]
      set t := (s.run mm (List.replicate j (.execute kernel count bindings mode))).2
      have ht : t.tasksMax = s.tasksMax := tasksMax_run mm s _
      have hb : t.Batched := Batched.run mm _ h
      obtain ⟨hq, hc⟩ := execute_submits hb kernel count bindings mode
      obtain ⟨hdiv, hmod⟩ := succ_div_mod j (Nat.lt_of_lt_of_le Nat.one_pos (le_max_right s.tasksMax 1))
      simp only [run_cons, run_nil, ServerOp.apply, hq, hc, ih.1, ih.2, ht, hdiv, hmod]
      exact ⟨by omega, trivial⟩

/-- `j` executes and a `sync` from a batched state with no pending dispatch make
`j / T + 1` submissions. -/
theorem executes_then_sync (mm : MemoryManagement μ) {s : WgpuServer μ} (h : s.Batched)
    (hidle : s.tasksCount = 0) (kernel : Nat) (count : CubeCount) (bindings : List StorageId)
    (mode : ExecutionMode) (syncType : SyncType) (j : Nat) :
    (s.run mm (List.replicate j (.execute kernel count bindings mode) ++ [.sync syncType])).2.queue.length =
      s.queue.length + j / max s.tasksMax 1 + 1 := by
  rw [run_append, run_cons, run_nil]
  simp [ServerOp.apply, (executes_queue mm h hidle kernel count bindings mode j).1]

/-- `read` submits its copy in one batch after the pending commands, behind the submitted
batches, and leaves the encoder empty. -/
theorem read_submits (s : WgpuServer μ) (binding : StorageId) :
    (s.read binding).queue = s.queue ++ [⟨s.staged, s.encoder ++ [.copy binding]⟩] ∧
      (s.read binding).encoder = [] := ⟨rfl, rfl⟩

/-- Batching on every run from a new server, for every `tasks_max`: the invariant, the
order of the recorded calls, when `execute` and `read` submit, and the number of
submissions of `j` executes and a `sync` from an idle state. -/
theorem wgpu_batching (mm : MemoryManagement μ) (m : μ) (tasksMax : Nat) (ops : List ServerOp) :
    let s := ((WgpuServer.new m tasksMax).run mm ops).2
    s.tasksCount = s.encoder.countP Command.isDispatch ∧ s.tasksCount < max tasksMax 1 ∧
    (∀ sub ∈ s.queue, sub.commands.countP Command.isDispatch ≤ max tasksMax 1) ∧
    s.recorded.map Command.call = ops.filterMap ServerOp.call? ∧
    (∀ kernel count bindings mode,
      (s.execute kernel count bindings mode).queue.length =
          s.queue.length + (if s.tasksCount + 1 = max tasksMax 1 then 1 else 0) ∧
        (s.execute kernel count bindings mode).tasksCount =
          if s.tasksCount + 1 = max tasksMax 1 then 0 else s.tasksCount + 1) ∧
    (∀ binding, (s.read binding).queue = s.queue ++ [⟨s.staged, s.encoder ++ [.copy binding]⟩] ∧
      (s.read binding).encoder = []) ∧
    (s.tasksCount = 0 → ∀ kernel count bindings mode syncType j,
      (s.run mm (List.replicate j (.execute kernel count bindings mode) ++ [.sync syncType])).2.queue.length =
        s.queue.length + j / max tasksMax 1 + 1) := by
  intro s
  have h : s.Batched := Batched.run mm ops (Batched.new m tasksMax)
  have ht : s.tasksMax = tasksMax := tasksMax_run mm _ ops
  rw [← ht]
  refine ⟨h.tasksCount_eq, h.tasksCount_lt, h.batch_le, ?_, execute_submits h, read_submits s,
    fun hidle => executes_then_sync mm h hidle⟩
  rw [recorded_run]
  rfl

end WgpuServer

end CubeCL.Wgpu
