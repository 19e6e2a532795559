import Batos.Vmm.PageMap
import Batos.Vmm.Rights
import Batos.Sched.Client
import Batos.Sched.History
import Batos.Sched.Run
import Batos.Vmm.Mmu
import Batos.Vmm.Contents
import Batos.Vmm.Merge
import Batos.Vmm.Spaces
import Batos.Vmm.Verify
import Batos.Lib.DenseArray
import Batos.Lib.IdTable
import Batos.Process.Model
import Batos.Process.Membership
import Batos.Process.Ownership
import Batos.Process.Execution
import Batos.Process.Reclamation
import Batos.Process.System
import Batos.Process.Publication
import Batos.Process.Reaper
import Batos.Lib.Unfolding
import Batos.Vmm.Destruction
import Batos.Vmm.Books
import Batos.Vmm.Active
import Batos.Process.AddressSpaces
import Batos.Sched.Fifo
import Batos.Vmm.Translate
import Batos.Process.Stacks
import Batos.Process.Production
import Batos.Lib.Bytes
import Batos.Lib.BlockList
import Batos.Heap.Model
import Batos.Heap.Blocks
import Batos.Heap.Calls
import Batos.Heap.Run
import Batos.Time.Model
import Batos.Time.Process
import Batos.Time.Run
import Batos.Time.Expirations
import Batos.Sched.Atomicity
import Batos.Sched.Switching
import Batos.Sched.FirstRun
import Batos.Vmm.Admission
import Batos.Vmm.Epochs
import Batos.Vmm.KernelSections
import Batos.Vmm.KernelSpace
import Batos.Process.Passing
import Batos.Sched.Window
import Batos.Process.Unguarded
import Batos.Process.Destruction
import Batos.Pmm.FreeSet
import Batos.Acpi.Madt
import Batos.Heap.DynamicPage
import Batos.Heap.Layout
import Batos.Apic.Gsi
import Batos.Process.Queues
import Batos.Vmm.Undisturbed
import Batos.Sched.Suspension
