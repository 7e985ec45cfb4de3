import CubeCL.IR.Variable
import CubeCL.IR.Operation
import CubeCL.IR.Scope
import CubeCL.IR.ScopeRun
import CubeCL.IR.Process
import CubeCL.IR.LocalIds
import CubeCL.IR.Layout
import CubeCL.IR.Reuse
import CubeCL.IR.UpdateRead
import CubeCL.IR.Semantics
import CubeCL.Frontend.Branch
import CubeCL.Frontend.WhileLoop
import CubeCL.Frontend.IfExpand
import CubeCL.Frontend.Codegen
import CubeCL.Frontend.Context
import CubeCL.Wgsl.Base
import CubeCL.Wgsl.Instruction
import CubeCL.Wgsl.Compiler
import CubeCL.Wgsl.Extensions
import CubeCL.Wgsl.Display
import CubeCL.Wgsl.Literal
import CubeCL.Wgsl.Declarations
import CubeCL.Wgsl.Render
import CubeCL.Wgsl.CompiledBody
import CubeCL.Frontend.RangeLoop
import CubeCL.Frontend.ForLoop
import CubeCL.Wgpu.Server
import CubeCL.Wgpu.Batching
import CubeCL.Wgpu.StorageUsed
import CubeCL.Wgpu.PipelineCache
import CubeCL.Wgpu.Adapter
import CubeCL.Cuda.Storage
