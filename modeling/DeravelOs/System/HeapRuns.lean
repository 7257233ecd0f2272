import DeravelOs.Ipc.System
import DeravelOs.Kernel.Registers
import DeravelOs.Memory.InStep
import DeravelOs.Memory.Supply
import DeravelOs.Memory.System

/-!
# The heap of a process over whole runs

The calls that a process makes on its heap, in any order and with anything in between: `alloc`,
`alloc_shared`, `map_shared` of memory that `alloc_shared` made, and `free` of what the process got.
Between two calls the kernel may do whatever it does in a reachable run.

* `HeapRun`: the runs, with the regions that are live.
* `HeapRun.inStep`: every run keeps heap, page table and allocated list in step.
* `HeapRun.in_step`: what that says of the regions, of the translations, and of the next call.
* `Reachable.heapCall`, `HeapRun.in_step_page`: calls are steps of the system; a page that is allocated
  and freed.
-/

namespace Deravel

open Failure PageTable

variable {P : Platform} {k k' k₁ k₂ : Kernel} {proc proc' : Process} {blocks : List Live}
  {b c : Backing} {S T : Set Backing} {id : ProcessId} {regions regions' : List Region}
  {s : Holdings} {size : ℕ} {layout : Layout} {cap root : RawCapability}

/-! ## Pages of a call -/

namespace Kernel

/-- A call gets its pages in one way. -/
lemma PagesFor.unique {layout' : Layout} (h : k.PagesFor k₁ size layout b proc)
    (h' : k.PagesFor k₂ size layout' c proc') : b = c := by
  have hsize : layout.size = layout'.size := Except.ok.inj (h.padded.symm.trans h'.padded)
  have hlayout : layout = layout' :=
    Option.some.inj (h.capacity.symm.trans ((congrArg bytesLayout hsize).trans h'.capacity))
  subst hlayout
  obtain ⟨k₀, hpages, -⟩ := h.pages
  obtain ⟨k₀', hpages', -⟩ := h'.pages
  have hsame := Except.ok.inj (hpages.symm.trans hpages')
  exact Except.ok.inj (Prod.mk.inj hsame).1

/-- The object of a new capability of the kernel. -/
lemma grantKernelCapability_getHandler {grantee : ProcessId} {handler : Handler}
    (h : k.grantKernelCapability P grantee handler = .ok (cap, k')) :
    k'.getHandler cap.localIndex = .ok handler := by
  have honly := grantKernelCapability_onlyMemory h
  obtain ⟨⟨cap', k₁⟩, hreserve, h⟩ := Checked.bind_eq_ok.mp h
  obtain ⟨k₂, -, h⟩ := Checked.bind_eq_ok.mp h
  cases h
  obtain ⟨hlt, hcap, -⟩ := reserveKernelCapability_eq_ok hreserve
  rw [RawCapability.new, dif_pos hlt] at hcap
  obtain rfl := Except.ok.inj hcap
  rw [getHandler, honly.handlers, RawCapability.localIndex_slot, List.getElem?_concat_length]
  rfl

end Kernel

/-! ## The calls -/

/-- A call of a process on its heap. -/
inductive HeapCall
  | alloc (size : ℕ)
  | allocShared (size : ℕ)
  | mapShared (cap : RawCapability)
  | free (ptr : ℕ)

/-- The result of a call, seen through a function. -/
def SyscallResult.map {α β : Type} (f : α → β) (result : SyscallResult α) : SyscallResult β :=
  (result.1, f <$> result.2)

/-- A call, with the address that it returns. -/
def Kernel.heapCall (P : Platform) (k : Kernel) : HeapCall → Checked (SyscallResult (Option ℕ))
  | .alloc size => SyscallResult.map some <$> k.alloc size
  | .allocShared size => SyscallResult.map (fun result => some result.1) <$> k.allocShared P size
  | .mapShared cap => SyscallResult.map (fun result => some result.1) <$> k.mapShared cap
  | .free ptr => SyscallResult.map (fun _ => none) <$> k.free ptr

lemma SyscallResult.map_eq_ok {α β : Type} {f : α → β} {call : Checked (SyscallResult α)}
    {r : Except SyscallAction β} (h : SyscallResult.map f <$> call = .ok (k', r)) :
    ∃ r', call = .ok (k', r') ∧ r = f <$> r' := by
  cases call with
  | error e => cases h
  | ok result =>
      cases h
      exact ⟨result.2, rfl, rfl⟩

/-- Memory that a call of `alloc_shared` made: it is behind the capability that was returned. -/
def Backing.AllocShared (P : Platform) (b : Backing) : Prop :=
  ∃ k oracle size k' virt cap, Reachable P (k, .user) ∧
    Kernel.allocShared P { k with oracle := oracle } size = .ok (k', .ok (virt, cap)) ∧
    k'.getHandler cap.localIndex = .ok (.sharedMemory b)

lemma Backing.AllocShared.wholePages (h : b.AllocShared P) : b.WholePages := by
  obtain ⟨k, oracle, size, k', virt, cap, -, hcall, hhandler⟩ := h
  obtain ⟨layout, pages, k₁, proc, hpages, ⟨-, hr⟩ |
    ⟨virt', proc', grantee, cap', halloc, hgrant, hr⟩⟩ := Kernel.allocShared_cases hcall
  · cases hr
  · cases hr
    rw [Kernel.grantKernelCapability_getHandler hgrant] at hhandler
    cases hhandler
    rcases Process.alloc_cases halloc with ⟨_, _, -, hnot, -⟩ | ⟨_, _, phys, _, -, hphys, -, -, -⟩
    · cases hnot
    · exact hpages.wholePages (Or.inr ⟨phys, hphys⟩)

/-- The calls that the runs are about. -/
def HeapCall.Allowed (P : Platform) (k : Kernel) (proc : Process) (regions : List Region) :
    HeapCall → Prop
  | alloc size => 1 ≤ size
  | allocShared size => 1 ≤ size
  | mapShared cap => ∃ root b, k.validate cap proc.id = .ok (.ok root) ∧
      root.certifier = .ok .kernel ∧ k.getHandler root.localIndex = .ok (.sharedMemory b) ∧
      b.AllocShared P
  | free ptr => ∃ r ∈ regions, r.ptr = ptr ∧ r.content.freeable = true

/-- What a call does to the live regions.  A call that fails changes nothing. -/
inductive HeapCall.Changes (P : Platform) (k : Kernel) (proc : Process) :
    HeapCall → Except SyscallAction (Option ℕ) → List Region → List Region → Prop
  | failed {call : HeapCall} {action : SyscallAction} {regions : List Region} :
      Changes P k proc call (.error action) regions regions
  | alloc {size virt : ℕ} {layout : Layout} {b : Backing} {k₁ : Kernel} {regions : List Region}
      (hpages : k.PagesFor k₁ size layout b proc) :
      Changes P k proc (.alloc size) (.ok (some virt)) regions
        (⟨virt, b.layout, .backing b true⟩ :: regions)
  | allocShared {size virt : ℕ} {layout : Layout} {b : Backing} {k₁ : Kernel}
      {regions : List Region} (hpages : k.PagesFor k₁ size layout b proc) :
      Changes P k proc (.allocShared size) (.ok (some virt)) regions
        (⟨virt, b.layout, .backing b true⟩ :: regions)
  | mapShared {cap root : RawCapability} {virt : ℕ} {layout : Layout} {b : Backing}
      {regions : List Region} (hvalidate : k.validate cap proc.id = .ok (.ok root))
      (hhandler : k.getHandler root.localIndex = .ok (.sharedMemory b))
      (hlayout : pageLayout b.byteSize = .ok layout) :
      Changes P k proc (.mapShared cap) (.ok (some virt)) regions
        (⟨virt, layout, .backing b false⟩ :: regions)
  | free {r : Region} {before after : List Region} (hfree : r.content.freeable = true) :
      Changes P k proc (.free r.ptr) (.ok none) (before ++ r :: after) (before ++ after)

/-- A process makes a call in a reachable state, with what it has. -/
structure Entered (P : Platform) (id : ProcessId) (s : Holdings) (k : Kernel) (proc : Process) :
    Prop where
  reachable : ∃ k₀ oracle, Reachable P (k₀, .user) ∧ k = { k₀ with oracle := oracle }
  process : k.process [] = .ok proc
  id_eq : proc.id = id
  holdings : proc.holdings = s

/-- The runs of a process on its heap, with the regions that are live. -/
inductive HeapRun (P : Platform) (id : ProcessId) : Holdings → List Region → Prop
  | created {k k' : Kernel} {elf : Elf} {args : List RawCapability} {proc : Process}
      (h : createProcess P k elf id args = .ok k') (hproc : k'.process? id = some proc) :
      HeapRun P id proc.holdings []
  | call {s : Holdings} {regions regions' : List Region} {k k' : Kernel} {proc proc' : Process}
      {call : HeapCall} {r : Except SyscallAction (Option ℕ)} (run : HeapRun P id s regions)
      (entered : Entered P id s k proc) (allowed : call.Allowed P k proc regions)
      (h : k.heapCall P call = .ok (k', r)) (changes : call.Changes P k proc r regions regions')
      (hproc : k'.process? id = some proc') : HeapRun P id proc'.holdings regions'

/-! ## One call -/

namespace Entered

variable {call : HeapCall} {r : Except SyscallAction (Option ℕ)}

lemma memoryOk (h : Entered P id s k proc) : k.MemoryOk P ∅ := by
  obtain ⟨k₀, oracle, hreachable, rfl⟩ := h.reachable
  exact hreachable.memoryOk.withOracle oracle

lemma process? (h : Entered P id s k proc) : k.process? id = some proc := by
  obtain ⟨pid, -, -, -, hslot⟩ := Kernel.process_eq_ok h.process
  obtain rfl : id = pid := ProcessId.ext (by rw [← h.id_eq, h.memoryOk.slots hslot])
  exact hslot

/-- The record of the process is written back. -/
lemma process?_set (h : Entered P id s k proc) (hid : proc'.id = proc.id) (k₁ : Kernel) :
    (k₁.setProcess proc').process? id = some proc' := by
  rw [Kernel.process?_setProcess, if_pos (h.id_eq.symm.trans hid.symm)]

/-- A call that fails leaves the process as it was. -/
lemma failed (h : Entered P id s k proc) (hstep : s.InStep [] regions)
    (hprocesses : k'.processes = k.processes) :
    ∃ proc', k'.process? id = some proc' ∧ proc'.holdings.InStep [] regions := by
  refine ⟨proc, ?_, h.holdings ▸ hstep⟩
  rw [Kernel.process?, hprocesses]
  exact h.process?

/-- A process that is killed keeps what it has. -/
lemma killed (h : Entered P id s k proc) (hstep : proc.holdings.InStep [] regions)
    (k₁ : Kernel) (reason : KillReason) :
    ∃ proc', ((k₁.logKill proc reason).setProcess { proc with state := .finished }).process? id =
      some proc' ∧ proc'.holdings.InStep [] regions := by
  have hid : ({ proc with state := .finished } : Process).id = proc.id := rfl
  exact ⟨_, h.process?_set hid _, hstep⟩

/-- Without room the pages are given back. -/
lemma noRoom (h : Entered P id s k proc) (hstep : s.InStep [] regions)
    (hpages : k.PagesFor k₁ size layout b proc) (hnone : Kernel.NoRoom k₁ k' proc b) :
    ∃ proc', k'.process? id = some proc' ∧ proc'.holdings.InStep [] regions := by
  obtain ⟨e, proc', halloc, hdrop⟩ := hnone
  have hstep' : proc.holdings.InStep [] regions := h.holdings ▸ hstep
  obtain rfl := hstep'.alloc_none halloc
  refine ⟨proc', ?_, hstep'⟩
  rw [Kernel.process?, (Kernel.dropBacking_onlyMemory hdrop).processes]
  exact h.process?_set rfl k₁

/-- New pages are a region. -/
lemma allocated (h : Entered P id s k proc) (hstep : s.InStep [] regions) (hb : b.WholePages)
    {virt : ℕ} (halloc : proc.alloc b PageFlags.readWrite.asUser = .ok (.ok virt, proc'))
    (hprocesses : k'.processes = (k₁.setProcess proc').processes) :
    ∃ proc'', k'.process? id = some proc'' ∧
      proc''.holdings.InStep [] (⟨virt, b.layout, .backing b true⟩ :: regions) := by
  have hstep' : proc.holdings.InStep [] regions := h.holdings ▸ hstep
  refine ⟨proc', ?_, hstep'.alloc hb halloc⟩
  rw [Kernel.process?, hprocesses]
  exact h.process?_set (Process.alloc_onlySpace halloc).id k₁

/-- A call of `map_shared`. -/
lemma mapShared_inStep (h : Entered P id s k proc) (hstep : s.InStep [] regions)
    (allowed : (HeapCall.mapShared cap).Allowed P k proc regions)
    (hcall : k.heapCall P (.mapShared cap) = .ok (k', r))
    (changes : (HeapCall.mapShared cap).Changes P k proc r regions regions') :
    ∃ proc', k'.process? id = some proc' ∧ proc'.holdings.InStep [] regions' := by
  have hstep' : proc.holdings.InStep [] regions := h.holdings ▸ hstep
  obtain ⟨r', hshare, rfl⟩ := SyscallResult.map_eq_ok hcall
  obtain ⟨k₁, proc₁, root, huses, hproc, hvalidate, hcases⟩ := Kernel.mapShared_cases hshare
  rw [huses.process] at hproc
  rw [huses.validate] at hvalidate
  obtain rfl := Except.ok.inj (h.process.symm.trans hproc)
  rcases hcases with hkill | ⟨handler, length, padded, layout, heap, -, hhandler, hlength,
    hpadded, hlayout, ⟨halloc, rfl, rfl⟩ | ⟨virt, proc', halloc, hmap, rfl, rfl⟩⟩
  · obtain ⟨rfl, rfl⟩ := Prod.mk.inj hkill
    cases changes
    exact h.killed hstep' k₁ _
  · cases changes
    have hsame : heap = proc.heap := hstep'.alloc_error halloc
    subst hsame
    exact ⟨_, h.process?_set rfl k₁, hstep'⟩
  · cases changes with
    | @mapShared _ _ _ layout' b _ hvalidate' hhandler' hlayout' =>
        obtain rfl := Except.ok.inj (Except.ok.inj (hvalidate.symm.trans hvalidate'))
        rw [huses.getHandler] at hhandler
        obtain rfl := Except.ok.inj (hhandler.symm.trans hhandler')
        cases hlength
        obtain ⟨root', b', hvalidate', -, hhandler', hshared⟩ := allowed
        obtain rfl := Except.ok.inj (Except.ok.inj (hvalidate.symm.trans hvalidate'))
        obtain rfl := Handler.sharedMemory.inj (Except.ok.inj (hhandler.symm.trans hhandler'))
        have hpad : padded = b.byteSize := (nextMultipleOfPage_eq_ok hpadded).trans
          (nextMultipleOf_of_dvd hshared.wholePages.dvd)
        subst hpad
        obtain rfl := Except.ok.inj (hlayout.symm.trans hlayout')
        have hid := (Kernel.sharedMemoryMap_onlySpace hmap).id
        exact ⟨proc', h.process?_set hid k₁, hstep'.shareMemory hlayout le_rfl halloc hmap⟩

/-- A call of `free`. -/
lemma free_inStep (h : Entered P id s k proc) (hstep : s.InStep [] regions)
    (hcall : k.heapCall P (.free ptr) = .ok (k', r))
    (changes : (HeapCall.free ptr).Changes P k proc r regions regions') :
    ∃ proc', k'.process? id = some proc' ∧ proc'.holdings.InStep [] regions' := by
  have hstep' : proc.holdings.InStep [] regions := h.holdings ▸ hstep
  obtain ⟨r', hfree, rfl⟩ := SyscallResult.map_eq_ok hcall
  obtain ⟨proc₁, hproc, hcases⟩ := Kernel.free_cases hfree
  obtain rfl := Except.ok.inj (h.process.symm.trans hproc)
  rcases hcases with ⟨-, hkill⟩ | ⟨proc', b, hdealloc, hdrop, rfl⟩
  · obtain ⟨rfl, rfl⟩ := Prod.mk.inj hkill
    cases changes
    exact h.killed hstep' k _
  · cases changes with
    | free hfreeable =>
        obtain ⟨b', hcontent⟩ := Content.eq_backing hfreeable
        obtain ⟨proc₁, hdealloc', hrest, -, honly⟩ := hstep'.dealloc hcontent
        obtain ⟨rfl, -⟩ := Prod.mk.inj (Option.some.inj (Except.ok.inj
          (hdealloc.symm.trans hdealloc')))
        refine ⟨proc', ?_, hrest⟩
        rw [Kernel.process?, (Kernel.dropBacking_onlyMemory hdrop).processes]
        exact h.process?_set honly.id k

/-- **A call keeps heap, table and list in step.** -/
theorem inStep (h : Entered P id s k proc) (hstep : s.InStep [] regions)
    (allowed : call.Allowed P k proc regions) (hcall : k.heapCall P call = .ok (k', r))
    (changes : call.Changes P k proc r regions regions') :
    ∃ proc', k'.process? id = some proc' ∧ proc'.holdings.InStep [] regions' := by
  cases call with
  | alloc size =>
      obtain ⟨r', halloc, rfl⟩ := SyscallResult.map_eq_ok hcall
      rcases Kernel.alloc_cases halloc with ⟨rfl, hfail⟩ |
        ⟨layout, pages, k₁, proc₁, hpages, ⟨hnone, rfl⟩ | ⟨virt, proc', halloc, rfl, rfl⟩⟩
      · cases changes
        rcases hfail with rfl | ⟨layout, e, hfail⟩
        · exact h.failed hstep rfl
        · exact h.failed hstep (Kernel.allocPages_onlyMemory hfail).processes
      · cases changes
        obtain rfl := Except.ok.inj (h.process.symm.trans hpages.process_eq)
        exact h.noRoom hstep hpages hnone
      · cases changes with
        | alloc hpages' =>
            obtain rfl := Except.ok.inj (h.process.symm.trans hpages.process_eq)
            obtain rfl := hpages.unique hpages'
            exact h.allocated hstep (hpages.wholePages (Or.inl allowed)) halloc rfl
  | allocShared size =>
      obtain ⟨r', halloc, rfl⟩ := SyscallResult.map_eq_ok hcall
      obtain ⟨layout, pages, k₁, proc₁, hpages, ⟨hnone, rfl⟩ |
        ⟨virt, proc', grantee, cap, halloc, hgrant, rfl⟩⟩ := Kernel.allocShared_cases halloc
      · cases changes
        obtain rfl := Except.ok.inj (h.process.symm.trans hpages.process_eq)
        exact h.noRoom hstep hpages hnone
      · cases changes with
        | allocShared hpages' =>
            obtain rfl := Except.ok.inj (h.process.symm.trans hpages.process_eq)
            obtain rfl := hpages.unique hpages'
            exact h.allocated hstep (hpages.wholePages (Or.inl allowed)) halloc
              (Kernel.grantKernelCapability_onlyMemory hgrant).processes
  | mapShared cap => exact h.mapShared_inStep hstep allowed hcall changes
  | free ptr => exact h.free_inStep hstep hcall changes

/-- Every call that returns is a step of a run. -/
lemma exists_changes (h : Entered P id s k proc) (allowed : call.Allowed P k proc regions)
    (hcall : k.heapCall P call = .ok (k', r)) :
    ∃ regions', call.Changes P k proc r regions regions' := by
  cases call with
  | alloc size =>
      obtain ⟨r', halloc, rfl⟩ := SyscallResult.map_eq_ok hcall
      rcases Kernel.alloc_cases halloc with ⟨rfl, -⟩ |
        ⟨layout, pages, k₁, proc₁, hpages, ⟨-, rfl⟩ | ⟨virt, proc', -, -, rfl⟩⟩
      · exact ⟨_, .failed⟩
      · exact ⟨_, .failed⟩
      · obtain rfl := Except.ok.inj (h.process.symm.trans hpages.process_eq)
        exact ⟨_, .alloc hpages⟩
  | allocShared size =>
      obtain ⟨r', halloc, rfl⟩ := SyscallResult.map_eq_ok hcall
      obtain ⟨layout, pages, k₁, proc₁, hpages, ⟨-, rfl⟩ | ⟨virt, proc', grantee, cap, -, -, rfl⟩⟩ :=
        Kernel.allocShared_cases halloc
      · exact ⟨_, .failed⟩
      · obtain rfl := Except.ok.inj (h.process.symm.trans hpages.process_eq)
        exact ⟨_, .allocShared hpages⟩
  | mapShared cap =>
      obtain ⟨r', hshare, rfl⟩ := SyscallResult.map_eq_ok hcall
      obtain ⟨k₁, proc₁, root, huses, hproc, hvalidate, hcases⟩ := Kernel.mapShared_cases hshare
      rw [huses.process] at hproc
      rw [huses.validate] at hvalidate
      obtain rfl := Except.ok.inj (h.process.symm.trans hproc)
      obtain ⟨root', b, hvalidate', -, hhandler', hshared⟩ := allowed
      obtain rfl := Except.ok.inj (Except.ok.inj (hvalidate.symm.trans hvalidate'))
      rcases hcases with hkill | ⟨handler, length, padded, layout, heap, -, hhandler, hlength,
        hpadded, hlayout, ⟨-, -, rfl⟩ | ⟨virt, proc', -, -, -, rfl⟩⟩
      · obtain ⟨-, rfl⟩ := Prod.mk.inj hkill
        exact ⟨_, .failed⟩
      · exact ⟨_, .failed⟩
      · rw [huses.getHandler] at hhandler
        obtain rfl := Except.ok.inj (hhandler.symm.trans hhandler')
        cases hlength
        have hpad : padded = b.byteSize := (nextMultipleOfPage_eq_ok hpadded).trans
          (nextMultipleOf_of_dvd hshared.wholePages.dvd)
        exact ⟨_, .mapShared hvalidate hhandler (hpad ▸ hlayout)⟩
  | free ptr =>
      obtain ⟨r', hfree, rfl⟩ := SyscallResult.map_eq_ok hcall
      obtain ⟨proc₁, hproc, ⟨-, hkill⟩ | ⟨proc', b, -, -, rfl⟩⟩ := Kernel.free_cases hfree
      · obtain ⟨-, rfl⟩ := Prod.mk.inj hkill
        exact ⟨_, .failed⟩
      · obtain ⟨r, hr, rfl, hfreeable⟩ := allowed
        obtain ⟨before, after, rfl⟩ := List.append_of_mem hr
        exact ⟨_, .free hfreeable⟩

/-! ## No panic out of step -/

lemma process_panics : KeepsStep (k.process []) :=
  PanicsAt.keepsStep Kernel.process_panics (by decide)

/-- What `alloc` and `alloc_shared` do once they have their pages. -/
lemma allocIn_keepsStep (h : Entered P id s k proc) (hstep : s.InStep [] regions)
    (hpages : k.PagesFor k₁ size layout b proc) (hsize : 1 ≤ size) {α : Type}
    {rest : Except AllocError ℕ × Process → Checked α}
    (hrest : ∀ e proc', proc.alloc b PageFlags.readWrite.asUser = .ok (.error e, proc') →
      KeepsStep ((k₁.setProcess proc').dropBacking b) → KeepsStep (rest (.error e, proc')))
    (hok : ∀ virt proc', KeepsStep (rest (.ok virt, proc'))) :
    KeepsStep (proc.alloc b PageFlags.readWrite.asUser >>= rest) := by
  have hb := hpages.wholePages (Or.inl hsize)
  have hstep' : proc.holdings.InStep [] regions := h.holdings ▸ hstep
  refine (hstep'.alloc_keepsStep hb).bind fun result halloc => ?_
  obtain ⟨e | virt, proc'⟩ := result
  · have hmemory := (h.memoryOk.pagesFor hpages).allocIn hpages.proc halloc
    have hmem : b ∈ (k₁.setProcess proc').counted ∪ {b} ∪ (k₁.setProcess proc').pinned :=
      Or.inl (Or.inr rfl)
    exact hrest e proc' halloc (hmemory.heap.dropBacking_keepsStep hmem hb.pos)
  · exact hok virt proc'

/-- The containers that come with new pages. -/
lemma afterPages_keepsStep (h : Entered P id s k proc) {contents : ℕ → UInt8}
    (halloc : k.allocPages layout contents = .ok (.ok b, k₁)) : KeepsStep k₁.churn :=
  (h.memoryOk.allocPages halloc).heap.churn_outOfMemory.keepsStep

lemma alloc_keepsStep (h : Entered P id s k proc) (hstep : s.InStep [] regions)
    (hsize : 1 ≤ size) : KeepsStep (k.alloc size) := by
  refine (PanicsAt.keepsStep nextMultipleOfPage_panics (by decide)).bind fun padded hpadded => ?_
  cases hlayout : bytesLayout padded with
  | none => exact .pure
  | some layout =>
      obtain rfl := bytesLayout_size hlayout
      refine (h.memoryOk.heap.allocPages_keepsStep).bind fun result halloc => ?_
      obtain ⟨e | pages, k₁⟩ := result
      · exact .pure
      · refine (h.afterPages_keepsStep halloc).bind fun k₂ hchurn => ?_
        refine process_panics.bind fun proc₁ hproc => ?_
        have hpages : k.PagesFor k₂ size layout pages proc₁ :=
          ⟨hpadded, hlayout, ⟨k₁, halloc, Kernel.churn_usesHeap hchurn⟩, hproc⟩
        obtain rfl := Except.ok.inj (h.process.symm.trans hpages.process_eq)
        refine h.allocIn_keepsStep hstep hpages hsize (fun e proc' _ hdrop => ?_) fun virt proc' => ?_
        · exact hdrop.bind fun _ _ => .pure
        · exact .pure

lemma allocShared_keepsStep (h : Entered P id s k proc) (hstep : s.InStep [] regions)
    (hsize : 1 ≤ size) : KeepsStep (k.allocShared P size) := by
  refine (PanicsAt.keepsStep nextMultipleOfPage_panics (by decide)).bind fun padded hpadded => ?_
  cases hlayout : bytesLayout padded with
  | none => exact .throw rfl
  | some layout =>
      obtain rfl := bytesLayout_size hlayout
      have hnew : KeepsStep (k.newPages layout fun _ => 0) := by
        refine (h.memoryOk.heap.allocPages_keepsStep).bind fun result _ => ?_
        obtain ⟨e | pages, k₁⟩ := result
        · exact .throw rfl
        · exact .pure
      refine hnew.bind fun ⟨pages, k₁⟩ halloc => ?_
      replace halloc := Kernel.newPages_eq_ok.mp halloc
      refine (h.afterPages_keepsStep halloc).bind fun k₂ hchurn => ?_
      refine process_panics.bind fun proc₁ hproc => ?_
      have hpages : k.PagesFor k₂ size layout pages proc₁ :=
        ⟨hpadded, hlayout, ⟨k₁, halloc, Kernel.churn_usesHeap hchurn⟩, hproc⟩
      obtain rfl := Except.ok.inj (h.process.symm.trans hpages.process_eq)
      refine h.allocIn_keepsStep hstep hpages hsize (fun e proc' _ hdrop => ?_) fun virt proc' => ?_
      · exact hdrop.bind fun _ _ => .pure
      · refine (PanicsAt.keepsStep Kernel.pid_panics (by decide)).bind fun pid _ => ?_
        refine (PanicsAt.keepsStep Kernel.grantKernelCapability_panics (by decide)).bind
          fun _ _ => .pure

lemma mapShared_keepsStep (h : Entered P id s k proc) (hstep : s.InStep [] regions)
    (hvalidate : k.validate cap proc.id = .ok (.ok root))
    (hhandler : k.getHandler root.localIndex = .ok (.sharedMemory b)) (hb : b.WholePages) :
    KeepsStep (k.mapShared cap) := by
  have hstep' : proc.holdings.InStep [] regions := h.holdings ▸ hstep
  rw [Kernel.mapShared, h.process, Checked.ok_bind, hvalidate, Checked.ok_bind]
  refine (PanicsAt.keepsStep RawCapability.certifier_panics (by decide)).bind fun certifier _ => ?_
  refine .ite (fun _ => .pure) fun _ => ?_
  rw [hhandler, Checked.ok_bind]
  refine (PanicsAt.keepsStep Kernel.sharedMemorySize_panics (by decide)).bind fun length hlength => ?_
  cases hlength
  refine (PanicsAt.keepsStep nextMultipleOfPage_panics (by decide)).bind fun padded hpadded => ?_
  refine (PanicsAt.keepsStep pageLayout_panics (by decide)).bind fun layout hlayout => ?_
  refine (PanicsAt.keepsStep BuddyAllocator.alloc_panics (by decide)).bind fun result halloc => ?_
  obtain ⟨e | virt, heap⟩ := result
  · exact .pure
  · refine h.memoryOk.heap.churn_outOfMemory.keepsStep.bind fun k₁ _ => ?_
    refine OnlyFails.bind ?_ fun _ _ => .pure
    refine (PanicsAt.keepsStep virtToPhys_panics (by decide)).bind fun phys _ => ?_
    refine OnlyFails.bind ?_ fun _ _ => .pure
    have hwhole : Region.Whole ⟨virt, layout, .backing b false⟩ := by
      refine pageLayout_region hlayout hb.dvd ?_ rfl
      rw [nextMultipleOfPage_eq_ok hpadded]
      exact le_nextMultipleOf _ _
    exact hstep'.map_keepsStep hwhole halloc

lemma free_keepsStep (h : Entered P id s k proc) (hstep : s.InStep [] regions) {r : Region}
    (hr : r ∈ regions) (hfreeable : r.content.freeable = true) : KeepsStep (k.free r.ptr) := by
  have hstep' : proc.holdings.InStep [] regions := h.holdings ▸ hstep
  obtain ⟨before, after, rfl⟩ := List.append_of_mem hr
  obtain ⟨b, hcontent⟩ := Content.eq_backing hfreeable
  obtain ⟨proc', hdealloc, -⟩ := hstep'.dealloc hcontent
  rw [Kernel.free, h.process, Checked.ok_bind, hdealloc, Checked.ok_bind]
  refine OnlyFails.bind ?_ fun _ _ => .pure
  have hmemory := h.memoryOk.deallocIn h.process hdealloc
  have hmem : b ∈ (k.setProcess proc').counted ∪ {b} ∪ (k.setProcess proc').pinned :=
    Or.inl (Or.inr rfl)
  exact hmemory.heap.dropBacking_keepsStep hmem ((hstep'.whole r hr).layout_eq b hcontent).1

/-- **No call panics out of step.** -/
theorem keepsStep (h : Entered P id s k proc) (hstep : s.InStep [] regions)
    (allowed : call.Allowed P k proc regions) : KeepsStep (k.heapCall P call) := by
  cases call with
  | alloc size => exact (h.alloc_keepsStep hstep allowed).map
  | allocShared size => exact (h.allocShared_keepsStep hstep allowed).map
  | mapShared cap =>
      obtain ⟨root, b, hvalidate, -, hhandler, hshared⟩ := allowed
      exact (h.mapShared_keepsStep hstep hvalidate hhandler hshared.wholePages).map
  | free ptr =>
      obtain ⟨r, hr, rfl, hfreeable⟩ := allowed
      exact (h.free_keepsStep hstep hr hfreeable).map

end Entered

/-! ## Runs -/

/-- The regions of a run have memory behind them. -/
lemma HeapCall.Changes.backed {call : HeapCall} {r : Except SyscallAction (Option ℕ)}
    (h : call.Changes P k proc r regions regions')
    (hbacked : ∀ r ∈ regions, ∃ b freeable, r.content = .backing b freeable) :
    ∀ r ∈ regions', ∃ b freeable, r.content = .backing b freeable := by
  cases h with
  | failed => exact hbacked
  | alloc _ => exact List.forall_mem_cons.mpr ⟨⟨_, _, rfl⟩, hbacked⟩
  | allocShared _ => exact List.forall_mem_cons.mpr ⟨⟨_, _, rfl⟩, hbacked⟩
  | mapShared _ _ _ => exact List.forall_mem_cons.mpr ⟨⟨_, _, rfl⟩, hbacked⟩
  | free _ =>
      intro r hr
      refine hbacked r ?_
      simp only [List.mem_append, List.mem_cons] at hr ⊢
      tauto

/-- **Every run keeps heap, page table and allocated list in step.** -/
theorem HeapRun.inStep (run : HeapRun P id s regions) :
    s.InStep [] regions ∧ ∀ r ∈ regions, ∃ b freeable, r.content = .backing b freeable := by
  induction run with
  | created hcreate hproc =>
      obtain ⟨proc, hproc', -, hstep⟩ := createProcess_inStep hcreate
      obtain rfl := Option.some.inj (hproc.symm.trans hproc')
      exact ⟨hstep [], by simp⟩
  | call run entered allowed hcall changes hproc ih =>
      obtain ⟨proc', hproc', hstep⟩ := entered.inStep ih.1 allowed hcall changes
      obtain rfl := Option.some.inj (hproc.symm.trans hproc')
      exact ⟨hstep, changes.backed ih.2⟩

/-- **The heap of a process stays in step with its table.**  After every run of the calls, the live
regions are regions of whole pages of `USER_HEAP`, disjoint, and the translations in `USER_HEAP` are
those of the live regions.  No next call panics out of step, and if it returns, the run goes on. -/
theorem HeapRun.in_step (run : HeapRun P id s regions) :
    (∀ r ∈ regions, pageSize ∣ r.ptr ∧ r.addresses ⊆ userHeap.addresses) ∧
    (regions.Pairwise fun r r' => Disjoint r.addresses r'.addresses) ∧
    (∀ v ∈ userHeap.addresses, ∀ phys,
      (∃ flags : PageFlags, flags.user = true ∧ s.pageTable.translate v = some (phys, flags)) ↔
        ∃ r ∈ regions, v ∈ r.addresses ∧ ∃ b freeable, r.content = .backing b freeable ∧
          phys = physOf b.ptr + (v - r.ptr)) ∧
    ∀ k proc call, Entered P id s k proc → call.Allowed P k proc regions →
      KeepsStep (k.heapCall P call) ∧
      ∀ k' r, k.heapCall P call = .ok (k', r) → ∃ proc' regions',
        k'.process? id = some proc' ∧ call.Changes P k proc r regions regions' ∧
          HeapRun P id proc'.holdings regions' := by
  obtain ⟨hstep, hbacked⟩ := run.inStep
  refine ⟨fun r hr => ?_, hstep.disjoint, fun v hv phys => hstep.translate_iff hbacked hv, ?_⟩
  · exact ⟨(hstep.placed hr).1, (hstep.placed hr).2.1⟩
  · intro k proc call entered allowed
    refine ⟨entered.keepsStep hstep allowed, fun k' r hcall => ?_⟩
    obtain ⟨regions', changes⟩ := entered.exists_changes allowed hcall
    obtain ⟨proc', hproc', -⟩ := entered.inStep hstep allowed hcall changes
    exact ⟨proc', regions', hproc', changes, .call run entered allowed hcall changes hproc'⟩

/-! ## A run with calls -/

/-- `main` creates the file system last. -/
lemma main_creates {oracle : Oracle} (h : main P oracle = .ok k) :
    ∃ k₀ pid args, ProcessId.new 1 = .ok pid ∧ createProcess P k₀ P.fat pid args = .ok k := by
  obtain ⟨heap, -, h⟩ := Checked.bind_eq_ok.mp h
  obtain ⟨k₀, hpci, h⟩ := Checked.bind_eq_ok.mp h
  have hnone : k₀.processesReserved = 0 := (Kernel.initializeAllPci_unseen hpci).processesReserved
  obtain ⟨⟨fat, fatExport, k₁⟩, hreserve, h⟩ := Checked.bind_eq_ok.mp h
  obtain ⟨hfat, -⟩ := Kernel.reserveProcess_eq_ok hreserve
  obtain ⟨⟨windowing, windowingExport, k₂⟩, -, h⟩ := Checked.bind_eq_ok.mp h
  obtain ⟨⟨display, k₃⟩, -, h⟩ := Checked.bind_eq_ok.mp h
  obtain ⟨⟨keyboard, k₄⟩, -, h⟩ := Checked.bind_eq_ok.mp h
  obtain ⟨⟨mouse, k₅⟩, -, h⟩ := Checked.bind_eq_ok.mp h
  obtain ⟨⟨imageViewer, k₆⟩, -, h⟩ := Checked.bind_eq_ok.mp h
  obtain ⟨⟨net, k₇⟩, -, h⟩ := Checked.bind_eq_ok.mp h
  obtain ⟨⟨shutdown, k₈⟩, -, h⟩ := Checked.bind_eq_ok.mp h
  obtain ⟨⟨terminal, k₉⟩, -, h⟩ := Checked.bind_eq_ok.mp h
  obtain ⟨⟨shell, k₁₀⟩, -, h⟩ := Checked.bind_eq_ok.mp h
  obtain ⟨k₁₁, -, h⟩ := Checked.bind_eq_ok.mp h
  obtain ⟨⟨drive, k₁₂⟩, -, h⟩ := Checked.bind_eq_ok.mp h
  obtain ⟨k₁₃, -, h⟩ := Checked.bind_eq_ok.mp h
  rw [hnone] at hfat
  exact ⟨k₁₃, fat, [drive], hfat, h⟩

/-- A process runs for the first time. -/
def Kernel.started (k : Kernel) (proc : Process) : Kernel :=
  { k.setUserspaceProcess proc with registers := proc.registers }

lemma Kernel.process_of_slot (hpid : k.userPid = some id) (hlt : id.asU16 < processCount)
    (hproc : k.process? id = some proc) : k.process [] = .ok proc := by
  simp only [process, pid_eq_ok.mpr hpid, lockIfSome, ensure_pos hlt,
    ensure_pos (List.not_mem_nil : id ∉ []), hproc, Checked.ok_bind]
  rfl

/-- The first turn is that of process 1. -/
lemma Kernel.scheduleUserspace_first (hpid : k.userPid = none) (hnone : k.processes 0 = none)
    (hproc : k.processes 1 = some proc) (hstate : proc.state = .runnable) :
    k.scheduleUserspace = .ok (k.started proc, .user) := by
  have hfind : k.findRunnableProcess = .ok (k, some proc) := by
    have hrange : List.range processCount = 0 :: 1 :: [2, 3, 4, 5, 6, 7] := rfl
    have hinspect : k.inspectCanProgress proc = .ok (k, proc) := by
      simp only [inspectCanProgress, hstate, ProcessState.waitsFor]
      rfl
    have hcan : proc.state.canRun = true := by rw [hstate]; rfl
    simp only [findRunnableProcess, hpid, hrange, scan, Nat.zero_add, Nat.zero_mod, hnone,
      Nat.one_mod_eq_one.mpr (show processCount ≠ 1 by decide), hproc, hinspect, Checked.ok_bind,
      hcan, if_true]
    rfl
  simp only [scheduleUserspace, hfind, Checked.ok_bind, resumeProcess, hstate]
  rfl

/-- A process loads its registers. -/
def Kernel.load (k : Kernel) (registers : List (Register × ℕ)) : Kernel :=
  { k with registers := fun r => (registers.lookup r).getD 0 }

lemma Reachable.load (h : Reachable P (k, .user)) {registers : List (Register × ℕ)}
    (hsmall : registers.all (fun entry => entry.2 < usizeRange) = true) :
    Reachable P (k.load registers, .user) := by
  have hmove : Move.next P .quiet (k, .user) (.user registers []) =
      some (k.load registers, .user) := by
    rw [Move.next, if_pos hsmall]
    rfl
  exact .step h (Move.next_step hmove)

/-- A call on the heap as a system call. -/
def HeapCall.syscall : HeapCall → Syscall
  | alloc size => .alloc size
  | allocShared size => .allocShared size
  | mapShared cap => .mapShared cap
  | free ptr => .free ptr

/-- A call that returns is what the dispatcher performs. -/
lemma Kernel.heapCall_perform {call : HeapCall} {ptr : Option ℕ}
    (h : k.heapCall P call = .ok (k', .ok ptr)) :
    ∃ results, call.syscall.perform P k = .ok (k', .ok results) := by
  cases call with
  | alloc size =>
      obtain ⟨r, hcall, hr⟩ := SyscallResult.map_eq_ok h
      cases r with
      | error action => cases hr
      | ok virt => exact ⟨_, congrArg (Functor.map (Syscall.answering fun virt => [virt])) hcall⟩
  | allocShared size =>
      obtain ⟨r, hcall, hr⟩ := SyscallResult.map_eq_ok h
      cases r with
      | error action => cases hr
      | ok shared => exact ⟨_, congrArg (Functor.map (Syscall.answering _)) hcall⟩
  | mapShared cap =>
      obtain ⟨r, hcall, hr⟩ := SyscallResult.map_eq_ok h
      cases r with
      | error action => cases hr
      | ok mapped => exact ⟨_, congrArg (Functor.map (Syscall.answering _)) hcall⟩
  | free ptr =>
      obtain ⟨r, hcall, hr⟩ := SyscallResult.map_eq_ok h
      cases r with
      | error action => cases hr
      | ok u => exact ⟨_, congrArg (Functor.map (Syscall.answering fun _ => [])) hcall⟩

/-- A call that returns is a step of the system. -/
lemma Reachable.heapCall (h : Reachable P (k, .user)) {oracle : Oracle} {call : HeapCall}
    {ptr : Option ℕ} (hread : Syscall.read k.registers = .ok call.syscall)
    (hcall : Kernel.heapCall P { k with oracle := oracle } call = .ok (k', .ok ptr))
    (hpc : k.sepc + 4 < usizeRange) :
    ∃ registers, Reachable P ({ k' with registers := registers, sepc := k.sepc + 4 }, .user) := by
  obtain ⟨results, hperform⟩ := Kernel.heapCall_perform hcall
  have hdispatch : Kernel.dispatchSyscall P { k with oracle := oracle } =
      .ok ({ k' with registers := Kernel.writeResults k'.registers results }, .ok ()) := by
    rw [Kernel.dispatchSyscall_eq]
    simp only [hread, hperform]
    rfl
  have htrap : Kernel.onUserTrap P { k with oracle := oracle } .userEnvCall = .ok ({ k' with
      registers := Kernel.writeResults k'.registers results
      sepc := k.sepc + 4 }, .user) := by
    simp only [Kernel.onUserTrap, Kernel.onUserTrapImpl, hdispatch, usizeAdd_of_lt hpc,
      Checked.ok_bind]
    rfl
  exact ⟨_, .step h (.trap oracle htrap)⟩

/-- A process loads the registers of a call. -/
def HeapCall.registers : HeapCall → List (Register × ℕ)
  | alloc size => [(.a6, 5), (.a0, size)]
  | allocShared size => [(.a6, 6), (.a0, size)]
  | mapShared cap => [(.a6, 7), (.a0, cap.asUsize)]
  | free ptr => [(.a6, 8), (.a0, ptr)]

/-- A process allocates and frees what it gets: the states after its calls, and the pointer. -/
def Kernel.allocAndFree (P : Platform) (k : Kernel) (size : ℕ) : Option (Kernel × ℕ × Kernel) := do
  let made ← (k.load (HeapCall.alloc size).registers |>.heapCall P (.alloc size)).toOption
  let virt ← made.2.toOption.join
  let freed ← ({ made.1 with sepc := k.sepc + 4, oracle := k.oracle }.load
    (HeapCall.free virt).registers |>.heapCall P (.free virt)).toOption
  if freed.2.toOption.isSome then some (made.1, virt, freed.1) else none

lemma Kernel.allocAndFree_eq_some {virt : ℕ} (h : k.allocAndFree P size = some (k₁, virt, k₂)) :
    (k.load (HeapCall.alloc size).registers).heapCall P (.alloc size) = .ok (k₁, .ok (some virt)) ∧
    ∃ ptr, ({ k₁ with sepc := k.sepc + 4, oracle := k.oracle }.load
      (HeapCall.free virt).registers).heapCall P (.free virt) = .ok (k₂, .ok ptr) := by
  obtain ⟨⟨k₁, r⟩, hmade, h⟩ := Option.bind_eq_some_iff.mp h
  obtain ⟨virt, hvirt, h⟩ := Option.bind_eq_some_iff.mp h
  obtain ⟨⟨k₂, r'⟩, hfreed, h⟩ := Option.bind_eq_some_iff.mp h
  split at h
  · next hdone =>
      cases h
      cases r with
      | error action => cases hvirt
      | ok ptr =>
          obtain rfl : ptr = some virt := hvirt
          cases r' with
          | error action => cases hdone
          | ok ptr => exact ⟨Checked.toOption_eq_some.mp hmade, ptr, Checked.toOption_eq_some.mp hfreed⟩
  · cases h

/-- What a call of `free` that returns takes away. -/
lemma HeapCall.Changes.of_free {call : HeapCall} {ptr : ℕ} {r : Except SyscallAction (Option ℕ)}
    {result : Option ℕ} (h : call.Changes P k proc r regions regions') (hcall : call = .free ptr)
    (hr : r = .ok result) :
    ∃ region before after, regions = before ++ region :: after ∧ regions' = before ++ after := by
  cases h with
  | failed => cases hr
  | alloc _ => cases hcall
  | allocShared _ => cases hcall
  | mapShared _ _ _ => cases hcall
  | free _ => exact ⟨_, _, _, rfl, rfl⟩

/-- The file system of a small machine. -/
def firstProcess : ProcessId := ⟨1, Nat.one_pos, one_le_maxProcesses⟩

set_option maxRecDepth 10000 in
/-- The file system allocates a page and frees it again: in between the page is mapped, and nothing is
after it. -/
theorem HeapRun.in_step_page : ∃ s r s', HeapRun .small firstProcess s [r] ∧
    HeapRun .small firstProcess s' [] ∧ r.ptr = 274810798080 ∧ r.addresses.Nonempty ∧
    (∀ v ∈ r.addresses, v ∈ userHeap.addresses ∧ ∃ phys, ∃ flags : PageFlags, flags.user = true ∧
      s.pageTable.translate v = some (phys, flags)) ∧
    ∀ v ∈ userHeap.addresses, ∀ phys, ∀ flags : PageFlags, flags.user = true →
      s'.pageTable.translate v ≠ some (phys, flags) := by
  have hplay : ((main .small .quiet).toOption.any fun k =>
      k.userPid = none ∧ (k.processes 0).isNone ∧ (k.processes 1).any fun proc =>
        proc.state = .runnable ∧ proc.pc + 4 < usizeRange ∧
        (Kernel.allocAndFree .small (Kernel.started { k with oracle := .quiet } proc) 4096).any
          fun found => found.2.1 = 274810798080 ∧ found.1.userPid = some firstProcess) = true := by
    decide +kernel
  obtain ⟨k, hmain, hstate⟩ := (Option.any_eq_true _ _).mp hplay
  obtain ⟨hpid, hnone, hstate⟩ := of_decide_eq_true hstate
  obtain ⟨proc, hproc, hstate⟩ := (Option.any_eq_true _ _).mp hstate
  obtain ⟨hrunnable, hpc, hstate⟩ := of_decide_eq_true hstate
  obtain ⟨⟨k₁, virt, k₂⟩, hcalls, hfound⟩ := (Option.any_eq_true _ _).mp hstate
  obtain ⟨hvirt, hpid₁⟩ := of_decide_eq_true hfound
  obtain rfl : virt = 274810798080 := hvirt
  obtain ⟨halloc, ptr, hfree⟩ := Kernel.allocAndFree_eq_some hcalls
  -- the process that `main` created last has its turn
  have hmain := Checked.toOption_eq_some.mp hmain
  obtain ⟨k₀, pid, args, hnew, hcreate⟩ := main_creates hmain
  obtain rfl : firstProcess = pid := Except.ok.inj hnew
  have run : HeapRun .small firstProcess proc.holdings [] := .created hcreate hproc
  have hturn : Kernel.scheduleUserspace { k with oracle := .quiet } =
      .ok ({ k with oracle := .quiet }.started proc, .user) :=
    Kernel.scheduleUserspace_first hpid (Option.isNone_iff_eq_none.mp hnone) hproc hrunnable
  have hstarted : Reachable .small ({ k with oracle := .quiet }.started proc, .user) :=
    .step (.main .quiet hmain) (.schedule .quiet hturn)
  have hid : proc.id = firstProcess := ProcessId.ext (hstarted.memoryOk.slots hproc)
  -- it allocates
  have hloaded : Reachable .small
      (({ k with oracle := .quiet }.started proc).load (HeapCall.alloc 4096).registers, .user) :=
    hstarted.load (by decide)
  obtain ⟨-, hgoes⟩ := (HeapRun.in_step run).2.2.2 _ proc (.alloc 4096)
    ⟨⟨_, .quiet, hloaded, rfl⟩, Kernel.process_of_slot (congrArg some hid) (by decide) hproc, hid, rfl⟩
    (show 1 ≤ 4096 by decide)
  obtain ⟨proc₁, regions, hproc₁, hchanges, run₁⟩ := hgoes _ _ halloc
  cases hchanges with
  | @alloc _ _ layout b k₃ _ hpages =>
      obtain ⟨hplaced, -, htranslate, hnext⟩ := HeapRun.in_step run₁
      have hpos := (hpages.wholePages (Or.inl (by decide))).pos
      -- it frees the page
      obtain ⟨registers, hreached⟩ := hloaded.heapCall rfl halloc
        ((show _ + 4 = proc.pc + 4 from rfl).trans_lt hpc)
      have hloaded₁ : Reachable .small (Kernel.load _ (HeapCall.free 274810798080).registers, .user) :=
        hreached.load (by decide)
      have hid₁ : proc₁.id = firstProcess := ProcessId.ext (hreached.memoryOk.slots hproc₁)
      obtain ⟨-, hgoes⟩ := hnext _ proc₁ (.free 274810798080)
        ⟨⟨_, .quiet, hloaded₁, rfl⟩, Kernel.process_of_slot hpid₁ (by decide) hproc₁, hid₁, rfl⟩
        ⟨_, List.mem_cons_self, rfl, rfl⟩
      obtain ⟨proc₂, regions, hproc₂, hchanges, run₂⟩ := hgoes _ _ hfree
      obtain ⟨region, before, after, hbefore, rfl⟩ := hchanges.of_free rfl rfl
      obtain ⟨rfl, -, rfl⟩ : before = [] ∧ _ ∧ after = [] := by
        cases before with
        | nil => exact ⟨rfl, (List.cons.inj hbefore).1, (List.cons.inj hbefore).2.symm⟩
        | cons _ rest => exact absurd (List.cons.inj hbefore).2 (by simp)
      refine ⟨_, _, _, run₁, run₂, rfl, ⟨_, le_rfl, Nat.lt_add_of_pos_right hpos⟩, ?_, ?_⟩
      · intro v hv
        have hheap := (hplaced _ List.mem_cons_self).2 hv
        exact ⟨hheap, _, (htranslate v hheap _).mpr ⟨_, List.mem_cons_self, hv, _, _, rfl, rfl⟩⟩
      · intro v hv phys flags huser hsome
        obtain ⟨r, hr, -⟩ := ((HeapRun.in_step run₂).2.2.1 v hv phys).mp ⟨flags, huser, hsome⟩
        exact absurd hr List.not_mem_nil

end Deravel
