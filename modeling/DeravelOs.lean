import DeravelOs.Types.Basic
import DeravelOs.Types.Actor
import DeravelOs.Lib.Dyadic
import DeravelOs.Lib.Arena
import DeravelOs.Lib.Cover
import DeravelOs.Lib.Loop
import DeravelOs.Lib.Failure
import DeravelOs.Lib.IntervalMap
import DeravelOs.Lib.BoundedQueue
import DeravelOs.Lib.Rendezvous
import DeravelOs.Lib.RendezvousHistory
import DeravelOs.Heap.Buddy
import DeravelOs.Heap.BuddyTree
import DeravelOs.Heap.BuddyOps
import DeravelOs.Heap.BuddyRuns
import DeravelOs.Heap.BuddySafety
import DeravelOs.Heap.BuddyReserve
import DeravelOs.Heap.BuddyExact
import DeravelOs.Heap.BuddyStats
import DeravelOs.Page.Table
import DeravelOs.Page.Walk
import DeravelOs.Page.Entries
import DeravelOs.Page.Ranges
import DeravelOs.Page.Mapping
import DeravelOs.Page.OnePage
import DeravelOs.Capability.Certificate
import DeravelOs.Capability.Validate
import DeravelOs.Capability.Decoding
import DeravelOs.Capability.Delegation
import DeravelOs.Ring.RingBuffer
import DeravelOs.Ring.Fifo
import DeravelOs.Kernel.State
import DeravelOs.Kernel.Memory
import DeravelOs.Kernel.Process
import DeravelOs.Kernel.Handler
import DeravelOs.Kernel.Syscall
import DeravelOs.Kernel.Trap
import DeravelOs.Kernel.Frames
import DeravelOs.Kernel.Loading
import DeravelOs.Kernel.Panics
import DeravelOs.Kernel.Cases
import DeravelOs.Kernel.Dispatch
import DeravelOs.Kernel.Registers
import DeravelOs.Kernel.Turns
import DeravelOs.Memory.Blocks
import DeravelOs.Memory.Certificates
import DeravelOs.Memory.Space
import DeravelOs.Memory.Invariant
import DeravelOs.Memory.Creation
import DeravelOs.Memory.Calls
import DeravelOs.Memory.Regions
import DeravelOs.Memory.InStep
import DeravelOs.Memory.Supply
import DeravelOs.Ipc.Peers
import DeravelOs.Ipc.Calls
import DeravelOs.Ipc.System
import DeravelOs.Ipc.Waiting
import DeravelOs.System.Context
import DeravelOs.System.Delivery
import DeravelOs.System.Containment
import DeravelOs.Memory.System
import DeravelOs.Memory.Holders
import DeravelOs.Memory.Ownership
import DeravelOs.System.Translations
import DeravelOs.System.Objects
import DeravelOs.System.Spawning
import DeravelOs.System.HeapRuns
import DeravelOs.System.Freeing
import DeravelOs.System.Allocating
import DeravelOs.System.Paging
import DeravelOs.System.DriveRegion
import DeravelOs.System.Creating
import DeravelOs.System.ProcessTable
import DeravelOs.Lib.Window
import DeravelOs.Virtio.Queue
import DeravelOs.Virtio.Input
import DeravelOs.Virtio.Net
import DeravelOs.Pci.Bars
import DeravelOs.Memory.Image
import DeravelOs.System.Scheduler
import DeravelOs.System.Sharing
import DeravelOs.System.StreamReplies
import DeravelOs.Lib.Chunks
import DeravelOs.Lib.Text
import DeravelOs.Lib.Utf16
import DeravelOs.Fat.Bpb
import DeravelOs.Fat.Directory
import DeravelOs.Fat.LongNames
import DeravelOs.Fat.Records
import DeravelOs.Fat.Volume
import DeravelOs.Fat.Table
import DeravelOs.Fat.Sectors
import DeravelOs.Fat.Reading
import DeravelOs.Fat.Pointers
import DeravelOs.Fat.Paths
import DeravelOs.Fat.Scanning
import DeravelOs.Fat.Kinds
import DeravelOs.Fat.Confinement
import DeravelOs.Fat.Mounting
import DeravelOs.Codegen.Layout
import DeravelOs.Codegen.Print
import DeravelOs.Codegen.Interfaces
import DeravelOs.Lib.Canonical
import DeravelOs.Memory.DirectMapping
import DeravelOs.Apps.Framebuffer
import DeravelOs.Apps.ImageViewer
import DeravelOs.Apps.PpmFormat
import DeravelOs.Apps.Filling
import DeravelOs.Types.Input
import DeravelOs.Kernel.Plic
import DeravelOs.Server.Dispatch
import DeravelOs.Server.Authority
import DeravelOs.Server.Contracts
import DeravelOs.Fat.Tree
import DeravelOs.Fat.Server
import DeravelOs.Apps.Windowing
import DeravelOs.Apps.WindowingRuns
