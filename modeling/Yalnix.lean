import Yalnix.Device.Input
import Yalnix.Device.InputRuns
import Yalnix.Device.Output
import Yalnix.Device.PipeArithmetic
import Yalnix.Device.PipeBuffer
import Yalnix.Device.PipeHistory
import Yalnix.Device.PipeInstances
import Yalnix.Device.PipeReaders
import Yalnix.Device.Reads
import Yalnix.Device.Service
import Yalnix.Device.Terminal
import Yalnix.Device.Writes
import Yalnix.FrameTracking
import Yalnix.Hardware
import Yalnix.Identifiers
import Yalnix.Interrupt
import Yalnix.Kernel
import Yalnix.Library.Admission
import Yalnix.Library.Apart
import Yalnix.Library.Batches
import Yalnix.Library.Fifo
import Yalnix.Library.IntrusiveQueue
import Yalnix.Library.MinHeap
import Yalnix.Library.Ownership
import Yalnix.Library.Pool
import Yalnix.Library.RingBuffer
import Yalnix.Library.Segments
import Yalnix.Library.Transition
import Yalnix.Library.TwoRuns
import Yalnix.Memory.Accounting
import Yalnix.Memory.Allocator
import Yalnix.Memory.Arguments
import Yalnix.Memory.Break
import Yalnix.Memory.Bytes
import Yalnix.Memory.Contents
import Yalnix.Memory.Contexts
import Yalnix.Memory.CopyOutcome
import Yalnix.Memory.Duplicate
import Yalnix.Memory.Extent
import Yalnix.Memory.GuardPage
import Yalnix.Memory.Installed
import Yalnix.Memory.KernelHeap
import Yalnix.Memory.KernelMemory
import Yalnix.Memory.KernelSide
import Yalnix.Memory.LoadProgram
import Yalnix.Memory.Loaded
import Yalnix.Memory.Mapping
import Yalnix.Memory.Operations
import Yalnix.Memory.Owners
import Yalnix.Memory.Pages
import Yalnix.Memory.Regions
import Yalnix.Memory.Resources
import Yalnix.Memory.Spared
import Yalnix.Memory.StackGrowth
import Yalnix.Memory.Stages
import Yalnix.Memory.State
import Yalnix.Memory.UserMemory
import Yalnix.ObjectTable
import Yalnix.Objects.Kinds
import Yalnix.Objects.Tables
import Yalnix.Pcb
import Yalnix.Pipe
import Yalnix.Process.Accounting
import Yalnix.Process.AddressSpace
import Yalnix.Process.Agenda
import Yalnix.Process.ChildList
import Yalnix.Process.Children
import Yalnix.Process.Conservation
import Yalnix.Process.Contexts
import Yalnix.Process.Custody
import Yalnix.Process.Decompose
import Yalnix.Process.Delay
import Yalnix.Process.DeviceSteps
import Yalnix.Process.Dispatch
import Yalnix.Process.Doomed
import Yalnix.Process.Effect
import Yalnix.Process.Exec
import Yalnix.Process.Family
import Yalnix.Process.ForkOutcome
import Yalnix.Process.GuardPage
import Yalnix.Process.HeapRuns
import Yalnix.Process.History
import Yalnix.Process.Holders
import Yalnix.Process.Inside
import Yalnix.Process.Invariant
import Yalnix.Process.Isolation
import Yalnix.Process.KernelStacks
import Yalnix.Process.KinSteps
import Yalnix.Process.Leaks
import Yalnix.Process.LockUsage
import Yalnix.Process.Moves
import Yalnix.Process.Objects
import Yalnix.Process.Orphans
import Yalnix.Process.PermitSupply
import Yalnix.Process.Permits
import Yalnix.Process.Placement
import Yalnix.Process.Quiet
import Yalnix.Process.Reaping
import Yalnix.Process.Record
import Yalnix.Process.Recycling
import Yalnix.Process.Registers
import Yalnix.Process.Registry
import Yalnix.Process.Resumption
import Yalnix.Process.SchedulerQueues
import Yalnix.Process.SleepHeap
import Yalnix.Process.SleepRuns
import Yalnix.Process.Space
import Yalnix.Process.States
import Yalnix.Process.Switch
import Yalnix.Process.SyncSteps
import Yalnix.Process.SyncView
import Yalnix.Process.Turns
import Yalnix.Process.UserHeap
import Yalnix.Process.UserPointers
import Yalnix.Process.Views
import Yalnix.Process.Waiting
import Yalnix.Process.Wakeups
import Yalnix.Sample
import Yalnix.Scheduler
import Yalnix.Synchronization
import Yalnix.Syscalls
import Yalnix.Tty
import Yalnix.Process.ExecOutcome
import Yalnix.Process.Failures
