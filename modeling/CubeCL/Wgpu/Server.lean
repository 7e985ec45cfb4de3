import Mathlib.Data.List.Basic

/-!
# `CubeCL.Wgpu.Server`: the wgpu compute server

`WgpuServer` of `cubecl-wgpu/src/compute/server.rs` as a state machine over its five
operations: `execute`, `read`, `create`, `empty` and `sync`.

The server records commands in one command encoder and submits the encoder to the device
queue on `sync`, when `execute` has recorded `tasks_max` dispatches, and on `read`. The
state keeps the fields of `WgpuServer` that these operations read and write, and three
records of what the device sees:

* `queue`: every submission, in order, each with the writes staged on the queue before it
  (`Queue::write_buffer_with` runs a staged write at the next submission, before its
  command buffer) and the encoder's commands;
* `staged`: the writes staged since the last submission;
* `compiled`: the kernels `compile_source` was called for, in order. A pipeline is named by
  the position of its compilation in that list.

The memory management and the storage are declared in files that are not under `src/`.
A binding is modelled as the storage its memory lives in (`get_resource` gives the
storage's buffer at an offset), and `MemoryManagement::reserve` is a parameter: from the
memory management's state, a size and the storages to avoid, the storage of the new
memory and the next state. The storage's `perform_deallocations`, which `sync` ends with,
frees no buffer that a recorded command uses once the encoder is submitted; it is not part
of the model.
-/

set_option autoImplicit false

namespace CubeCL.Wgpu

/-- `StorageId`. -/
abbrev StorageId := Nat

/-- `ExecutionMode`. -/
inductive ExecutionMode where
  | checked
  | unchecked
  deriving DecidableEq, Repr

/-- `KernelId` after `KernelId::mode`: the kernel's id and the execution mode. -/
structure KernelId where
  kernel : Nat
  mode : ExecutionMode
  deriving DecidableEq, Repr

/-- `CubeCount`: a static number of workgroups, or a number read from a buffer. -/
inductive CubeCount where
  | static (x y z : Nat)
  | dynamic (binding : StorageId)
  deriving DecidableEq, Repr

/-- `SyncType`. -/
inductive SyncType where
  | flush
  | wait
  deriving DecidableEq, Repr

/-- A command recorded in the encoder: a dispatch with its pipeline, bindings and count, or
the copy that `read` records from a binding to a staging buffer. -/
inductive Command where
  | dispatch (pipeline : Nat) (bindings : List StorageId) (count : CubeCount)
  | copy (source : StorageId)
  deriving DecidableEq, Repr

/-- The storages a command reads or writes on the device: a dispatch's bindings and, for
a dynamic count, the buffer of its dispatch arguments; a copy's source. -/
def Command.storagesUsed : Command → List StorageId
  | .dispatch _ bindings (.static ..) => bindings
  | .dispatch _ bindings (.dynamic binding) => bindings ++ [binding]
  | .copy source => [source]

/-- The command is a dispatch. -/
def Command.isDispatch : Command → Bool
  | .dispatch .. => true
  | .copy _ => false

/-- One submission to the queue: the writes staged before it, then the command buffer. -/
structure Submission where
  writes : List StorageId
  commands : List Command
  deriving DecidableEq, Repr

/-- `MemoryManagement::reserve`, over a state `μ`. -/
structure MemoryManagement (μ : Type) where
  reserve : μ → Nat → List StorageId → StorageId × μ

/-- `reserve` honours its exclusion list: the new memory is in none of the storages it is
told to avoid. -/
def MemoryManagement.Honours {μ : Type} (mm : MemoryManagement μ) : Prop :=
  ∀ m size exclude, (mm.reserve m size exclude).1 ∉ exclude

/-- The state of a `WgpuServer`, with the device's view of it. -/
structure WgpuServer (μ : Type) where
  memoryManagement : μ
  encoder : List Command
  currentPass : Bool
  tasksCount : Nat
  computeStorageUsed : List StorageId
  pipelines : List (KernelId × Nat)
  tasksMax : Nat
  staged : List StorageId
  queue : List Submission
  compiled : List KernelId

/-- An operation of the server, with its arguments. `create` reads only the length of its
data. -/
inductive ServerOp where
  | execute (kernel : Nat) (count : CubeCount) (bindings : List StorageId) (mode : ExecutionMode)
  | read (binding : StorageId)
  | create (size : Nat)
  | empty (size : Nat)
  | sync (syncType : SyncType)
  deriving DecidableEq, Repr

/-- What an operation returns: a handle on the storage of new memory, a reader, or nothing. -/
inductive ServerResult where
  | handle (storage : StorageId)
  | reader
  | unit
  deriving DecidableEq, Repr

namespace WgpuServer

variable {μ : Type}

/-- `WgpuServer::new`: an empty encoder, no pass, no task, no pipeline. -/
def new (memoryManagement : μ) (tasksMax : Nat) : WgpuServer μ where
  memoryManagement := memoryManagement
  encoder := []
  currentPass := false
  tasksCount := 0
  computeStorageUsed := []
  pipelines := []
  tasksMax := tasksMax
  staged := []
  queue := []
  compiled := []

/-- `WgpuServer::pipeline`: the cached pipeline of the kernel in this mode, or a new one from
`compile_source`, cached. -/
def pipeline (s : WgpuServer μ) (kernel : Nat) (mode : ExecutionMode) : Nat × WgpuServer μ :=
  let kernelId : KernelId := ⟨kernel, mode⟩
  match s.pipelines.lookup kernelId with
  | some pipeline => (pipeline, s)
  | none =>
      let pipeline := s.compiled.length
      (pipeline, { s with
        compiled := s.compiled ++ [kernelId]
        pipelines := s.pipelines ++ [(kernelId, pipeline)] })

/-- `WgpuServer::clear_compute_pass`. -/
def clearComputePass (s : WgpuServer μ) : WgpuServer μ := { s with currentPass := false }

/-- `sync`: end the pass, submit the encoder after the staged writes, and start afresh. -/
def sync (s : WgpuServer μ) (_syncType : SyncType) : WgpuServer μ :=
  let s := s.clearComputePass
  { s with
    queue := s.queue ++ [⟨s.staged, s.encoder⟩]
    encoder := []
    staged := []
    tasksCount := 0
    computeStorageUsed := [] }

section SyncFields

variable (s : WgpuServer μ) (syncType : SyncType)

@[simp] theorem sync_queue : (s.sync syncType).queue = s.queue ++ [⟨s.staged, s.encoder⟩] := rfl
@[simp] theorem sync_encoder : (s.sync syncType).encoder = [] := rfl
@[simp] theorem sync_staged : (s.sync syncType).staged = [] := rfl
@[simp] theorem sync_tasksCount : (s.sync syncType).tasksCount = 0 := rfl
@[simp] theorem sync_computeStorageUsed : (s.sync syncType).computeStorageUsed = [] := rfl
@[simp] theorem sync_tasksMax : (s.sync syncType).tasksMax = s.tasksMax := rfl
@[simp] theorem sync_compiled : (s.sync syncType).compiled = s.compiled := rfl
@[simp] theorem sync_pipelines : (s.sync syncType).pipelines = s.pipelines := rfl

end SyncFields

/-- `read`: record a copy of the binding to a staging buffer, then flush. -/
def read (s : WgpuServer μ) (binding : StorageId) : WgpuServer μ :=
  let s := s.clearComputePass
  let s := { s with encoder := s.encoder ++ [Command.copy binding] }
  s.sync .flush

/-- `create`: reserve memory outside the storages the encoder uses, and stage the write of
the data unless it is empty. -/
def create (mm : MemoryManagement μ) (s : WgpuServer μ) (size : Nat) :
    StorageId × WgpuServer μ :=
  let (storage, memoryManagement) := mm.reserve s.memoryManagement size s.computeStorageUsed
  let s := { s with memoryManagement }
  (storage, if size = 0 then s else { s with staged := s.staged ++ [storage] })

/-- `empty`: reserve memory anywhere. -/
def empty (mm : MemoryManagement μ) (s : WgpuServer μ) (size : Nat) :
    StorageId × WgpuServer μ :=
  let (storage, memoryManagement) := mm.reserve s.memoryManagement size []
  (storage, { s with memoryManagement })

/-- `execute`: record the bindings' storages as used, record the dispatch, and flush once
`tasks_max` dispatches are recorded. -/
def execute (s : WgpuServer μ) (kernel : Nat) (count : CubeCount) (bindings : List StorageId)
    (mode : ExecutionMode) : WgpuServer μ :=
  let (pipeline, s) := s.pipeline kernel mode
  let s := { s with computeStorageUsed := s.computeStorageUsed ++ bindings }
  let s := { s with tasksCount := s.tasksCount + 1 }
  let s := { s with currentPass := true }
  let s := { s with encoder := s.encoder ++ [Command.dispatch pipeline bindings count] }
  if s.tasksCount ≥ s.tasksMax then s.sync .flush else s

/-- `pipeline` touches only the cache and the compilation log. -/
theorem pipeline_eq (s : WgpuServer μ) (kernel : Nat) (mode : ExecutionMode) :
    ∃ compiled pipelines, (s.pipeline kernel mode).2 = { s with compiled, pipelines } := by
  simp only [pipeline]
  cases s.pipelines.lookup ⟨kernel, mode⟩
  · exact ⟨_, _, rfl⟩
  · exact ⟨s.compiled, s.pipelines, rfl⟩

/-- `execute` as a record update: the pipeline, then the recorded dispatch, then the flush
when the batch is full. -/
theorem execute_eq (s : WgpuServer μ) (kernel : Nat) (count : CubeCount)
    (bindings : List StorageId) (mode : ExecutionMode) :
    ∃ pipeline compiled pipelines,
      let t : WgpuServer μ := { s with
        compiled, pipelines
        computeStorageUsed := s.computeStorageUsed ++ bindings
        tasksCount := s.tasksCount + 1
        currentPass := true
        encoder := s.encoder ++ [.dispatch pipeline bindings count] }
      s.execute kernel count bindings mode = if s.tasksCount + 1 ≥ s.tasksMax then t.sync .flush else t := by
  obtain ⟨compiled, pipelines, hp⟩ := pipeline_eq s kernel mode
  refine ⟨(s.pipeline kernel mode).1, compiled, pipelines, ?_⟩
  simp only [execute, hp]

end WgpuServer

/-- One operation on the server. -/
def ServerOp.apply {μ : Type} (mm : MemoryManagement μ) (s : WgpuServer μ) :
    ServerOp → ServerResult × WgpuServer μ
  | .execute kernel count bindings mode => (.unit, s.execute kernel count bindings mode)
  | .read binding => (.reader, s.read binding)
  | .create size => let (storage, s) := s.create mm size; (.handle storage, s)
  | .empty size => let (storage, s) := s.empty mm size; (.handle storage, s)
  | .sync syncType => (.unit, s.sync syncType)

/-- Run the operations in order: the results, and the server at the end. -/
def WgpuServer.run {μ : Type} (mm : MemoryManagement μ) (s : WgpuServer μ) :
    List ServerOp → List ServerResult × WgpuServer μ
  | [] => ([], s)
  | op :: ops =>
      let (r, s₁) := op.apply mm s
      let (rs, s₂) := WgpuServer.run mm s₁ ops
      (r :: rs, s₂)

namespace WgpuServer

variable {μ : Type} (mm : MemoryManagement μ)

/-- The empty run changes nothing. -/
@[simp]
theorem run_nil (s : WgpuServer μ) : (s.run mm []).2 = s := rfl

/-- A run is its first operation, then the rest. -/
@[simp]
theorem run_cons (s : WgpuServer μ) (op : ServerOp) (ops : List ServerOp) :
    (s.run mm (op :: ops)).2 = ((op.apply mm s).2.run mm ops).2 := rfl

/-- A run of two lists is the run of the first, then of the second. -/
theorem run_append (s : WgpuServer μ) (ops₁ ops₂ : List ServerOp) :
    (s.run mm (ops₁ ++ ops₂)).2 = ((s.run mm ops₁).2.run mm ops₂).2 := by
  induction ops₁ generalizing s with
  | nil => rfl
  | cons op ops₁ ih => exact ih _

/-- No operation changes `tasks_max`. -/
@[simp]
theorem tasksMax_apply (s : WgpuServer μ) (op : ServerOp) :
    (op.apply mm s).2.tasksMax = s.tasksMax := by
  cases op with
  | execute kernel count bindings mode =>
      obtain ⟨_, _, _, hexec⟩ := execute_eq s kernel count bindings mode
      simp only [ServerOp.apply, hexec]
      split_ifs <;> rfl
  | create size =>
      simp only [ServerOp.apply, create]
      split_ifs <;> rfl
  | _ => rfl

/-- No run changes `tasks_max`. -/
@[simp]
theorem tasksMax_run (s : WgpuServer μ) (ops : List ServerOp) :
    (s.run mm ops).2.tasksMax = s.tasksMax := by
  induction ops generalizing s with
  | nil => rfl
  | cons op ops ih => rw [run_cons, ih, tasksMax_apply]

end WgpuServer

end CubeCL.Wgpu
