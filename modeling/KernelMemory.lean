import KernelMemory.Interrupt
import KernelMemory.Kernel.Memory
import KernelMemory.Kernel.PageFault
import KernelMemory.Proofs.Fault.Handlers
import KernelMemory.Proofs.Frames.Arithmetic
import KernelMemory.Proofs.Frames.BootMap
import KernelMemory.Proofs.Frames.Counted
import KernelMemory.Proofs.Frames.FreeSet
import KernelMemory.Proofs.Frames.Padding
import KernelMemory.Proofs.Frames.Reservation
import KernelMemory.Proofs.Heap.Blocks
import KernelMemory.Proofs.Heap.Growth
import KernelMemory.Proofs.Heap.Refusal
import KernelMemory.Proofs.Manager.Bootloader
import KernelMemory.Proofs.Manager.Conservation
import KernelMemory.Proofs.Manager.Independence
import KernelMemory.Proofs.Manager.Invalidation
import KernelMemory.Proofs.Manager.Machines
import KernelMemory.Proofs.Manager.PagingOnce
import KernelMemory.Proofs.Manager.Ranges
import KernelMemory.Proofs.Manager.Reuse
import KernelMemory.Proofs.Manager.SelfTest
import KernelMemory.Proofs.Paging.Imitation
import KernelMemory.Proofs.Space.Agreement
import KernelMemory.Proofs.Space.Bindings
import KernelMemory.Proofs.Space.Failure
import KernelMemory.Proofs.Space.Fields
import KernelMemory.Proofs.Space.Footprint
import KernelMemory.Proofs.Space.Hardware
import KernelMemory.Proofs.Space.Indices
import KernelMemory.Proofs.Space.Inverse
import KernelMemory.Proofs.Space.Making
import KernelMemory.Proofs.Space.Report
import KernelMemory.Proofs.Space.Tree
import KernelMemory.Proofs.Sync.Exclusion
import KernelMemory.Proofs.Sync.Installation
import KernelMemory.Sync.InterruptGuard
import KernelMemory.Sync.OnceCell
import KernelMemory.Sync.SpinLock
