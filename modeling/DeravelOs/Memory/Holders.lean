import DeravelOs.Memory.InStep
import DeravelOs.Memory.System

/-!
# The regions of every process

Every process, in every state that the system can be in, holds regions with which its heap, its
table and its list are in step; and whatever its list has in the heap was put there by a call of its
own.

* `Kernel.RegionsOk`: this, over where the entries of the lists are from.
* `Obtained`: an entry is from a call of `alloc` or `alloc_shared` in the run.
* `Reachable.regionsOk`: it holds of every reachable state.
-/

namespace Deravel

open PageTable

variable {P : Platform} {k k' k₁ : Kernel} {proc proc' next : Process} {b : Backing}
  {O O' : ProcessId → ℕ × Backing → Prop} {M : VirtualMemoryMapping → Prop} {id : ProcessId} {mode : Mode}
  {mappings mappings' : List VirtualMemoryMapping}

/-- What a process holds is in step, and its heap has what `O` says that it may have. -/
structure Process.RegionsOk (O : ProcessId → ℕ × Backing → Prop)
    (mappings : List VirtualMemoryMapping) (proc : Process) : Prop where
  inStep : ∃ regions, proc.holdings.InStep mappings regions
  obtained : ∀ entry ∈ proc.allocated, userHeap.start ≤ entry.1 → O proc.id entry

/-- **Every process is in step with the mappings of the kernel,** and `M` holds of the mappings. -/
structure Kernel.RegionsOk (O : ProcessId → ℕ × Backing → Prop) (M : VirtualMemoryMapping → Prop)
    (k : Kernel) : Prop where
  mappings : k.MappingsOk
  each : ∀ mapping ∈ k.mappings, M mapping
  process : ∀ ⦃i proc⦄, k.processes i = some proc → proc.RegionsOk O k.mappings

namespace Process.RegionsOk

lemma mono (h : proc.RegionsOk O mappings) (hO : ∀ id entry, O id entry → O' id entry) :
    proc.RegionsOk O' mappings :=
  ⟨h.inStep, fun entry hmem hle => hO _ _ (h.obtained entry hmem hle)⟩

lemma extend (h : proc.RegionsOk O mappings) (hext : Region.Extends mappings mappings') :
    proc.RegionsOk O mappings' := by
  obtain ⟨regions, hstep⟩ := h.inStep
  exact ⟨⟨regions, hstep.extend hext⟩, h.obtained⟩

/-- Only the number and the holdings of a process matter. -/
lemma congr (h : proc.RegionsOk O mappings) (hid : proc'.id = proc.id)
    (hholdings : proc'.holdings = proc.holdings) : proc'.RegionsOk O mappings := by
  have hallocated : proc'.allocated = proc.allocated := congrArg Holdings.allocated hholdings
  refine ⟨by rw [hholdings]; exact h.inStep, ?_⟩
  rw [hid, hallocated]
  exact h.obtained

/-- The list did not change, and the rest is in step again. -/
lemma of_inStep (h : proc.RegionsOk O mappings) (hid : proc'.id = proc.id)
    (hallocated : proc'.allocated = proc.allocated) {regions : List Region}
    (hstep : proc'.holdings.InStep mappings' regions) : proc'.RegionsOk O mappings' := by
  refine ⟨⟨regions, hstep⟩, ?_⟩
  rw [hid, hallocated]
  exact h.obtained

end Process.RegionsOk

/-- Mappings that are added at the end leave the others alone. -/
lemma Region.extends_append (mappings added : List VirtualMemoryMapping) :
    Region.Extends mappings (mappings ++ added) := by
  intro index mapping hmapping
  refine ⟨mapping, ?_, rfl, List.Subset.refl _⟩
  rw [List.getElem?_append_left (List.getElem?_eq_some_iff.mp hmapping).1]
  exact hmapping

namespace Kernel

/-- What is shared with a process is not on its list. -/
lemma sharedMemoryMap_allocated {handler : Handler} {virt : ℕ} {heap : BuddyAllocator}
    (h : k.sharedMemoryMap handler virt { proc with heap := heap } = .ok proc') :
    proc'.allocated = proc.allocated := by
  cases handler with
  | sharedMemory backing =>
      obtain ⟨phys, -, h⟩ := Checked.bind_eq_ok.mp h
      obtain ⟨table, -, h⟩ := Checked.bind_eq_ok.mp h
      cases h
      rfl
  | mapping index =>
      obtain ⟨mapping, -, h⟩ := Checked.bind_eq_ok.mp h
      obtain ⟨table, -, h⟩ := Checked.bind_eq_ok.mp h
      cases h
      rfl
  | _ => cases h

namespace RegionsOk

lemma mono (h : k.RegionsOk O M) (hO : ∀ id entry, O id entry → O' id entry) : k.RegionsOk O' M :=
  ⟨h.mappings, h.each, fun _ _ hproc => (h.process hproc).mono hO⟩

/-- Only processes and mappings matter. -/
lemma congr (h : k.RegionsOk O M) (hprocesses : k'.processes = k.processes)
    (hmappings : k'.mappings = k.mappings) : k'.RegionsOk O M := by
  refine ⟨⟨?_, ?_⟩, ?_, ?_⟩
  · rw [hmappings]
    exact h.mappings.whole
  · rw [hmappings]
    exact h.mappings.pages
  · rw [hmappings]
    exact h.each
  · rw [hprocesses, hmappings]
    exact h.process

lemma onlyMemory (h : k.RegionsOk O M) (honly : k.OnlyMemory k') : k'.RegionsOk O M :=
  h.congr honly.processes honly.mappings

lemma withOracle (h : k.RegionsOk O M) (oracle : Oracle) :
    RegionsOk O M { k with oracle := oracle } := h.congr rfl rfl

lemma setProcess (h : k.RegionsOk O M) (hproc : proc.RegionsOk O k.mappings) :
    (k.setProcess proc).RegionsOk O M := by
  refine ⟨⟨h.mappings.whole, h.mappings.pages⟩, h.each, fun i proc' hproc' => ?_⟩
  rw [setProcess_processes] at hproc'
  by_cases hi : i = proc.id.asU16
  · rw [hi, Function.update_self] at hproc'
    cases hproc'
    exact hproc
  · rw [Function.update_of_ne hi] at hproc'
    exact h.process hproc'

/-- A process of the kernel with the same holdings is put back. -/
lemma setSame (h : k.RegionsOk O M) {i : ℕ} (hproc : k.processes i = some proc)
    (hid : proc'.id = proc.id) (hholdings : proc'.holdings = proc.holdings) :
    (k.setProcess proc').RegionsOk O M :=
  h.setProcess ((h.process hproc).congr hid hholdings)

lemma running (h : k.RegionsOk O M) {held : List ProcessId} (hproc : k.process held = .ok proc) :
    proc.RegionsOk O k.mappings := by
  obtain ⟨pid, -, -, -, hslot⟩ := process_eq_ok hproc
  exact h.process hslot

lemma setRunning (h : k.RegionsOk O M) {held : List ProcessId} (hproc : k.process held = .ok proc)
    (hid : proc'.id = proc.id) (hholdings : proc'.holdings = proc.holdings) :
    (k.setProcess proc').RegionsOk O M :=
  h.setProcess ((h.running hproc).congr hid hholdings)

lemma logKill (h : k.RegionsOk O M) {reason : KillReason} : (k.logKill proc reason).RegionsOk O M :=
  h.congr rfl rfl

lemma kill {α : Type} {reason : KillReason} {r : Except SyscallAction α} (h : k.RegionsOk O M)
    {held : List ProcessId} (hproc : k.process held = .ok proc)
    (hkill : (k', r) = k.kill proc' reason) (hid : proc'.id = proc.id)
    (hholdings : proc'.holdings = proc.holdings) : k'.RegionsOk O M := by
  cases hkill
  exact h.logKill.setRunning ((process_congr rfl rfl held).trans hproc) hid hholdings

lemma reap (h : k.RegionsOk O M) {index : ℕ} (hreap : k.reap index proc = .ok k') :
    k'.RegionsOk O M := by
  have hgone : RegionsOk O M { k with processes := Function.update k.processes index none } := by
    refine ⟨⟨h.mappings.whole, h.mappings.pages⟩, h.each, fun i proc' hproc' => ?_⟩
    by_cases hi : i = index
    · rw [hi] at hproc'
      simp only [Function.update_self] at hproc'
      cases hproc'
    · simp only [Function.update_of_ne hi] at hproc'
      exact h.process hproc'
  exact hgone.onlyMemory (reap_onlyMemory hreap)

/-! ## Mappings -/

/-- `read_mapped` -/
lemma addMapping (h : k.RegionsOk O M) {sectorOffset size : ℕ} (hdvd : pageSize ∣ size)
    (hM : M ⟨sectorOffset, size, []⟩) :
    RegionsOk O M { k with mappings := k.mappings ++ [⟨sectorOffset, size, []⟩] } := by
  refine ⟨⟨fun mapping hmem => ?_, fun mapping hmem => ?_⟩, fun mapping hmem => ?_,
    fun i proc hproc => (h.process hproc).extend (Region.extends_append _ _)⟩
  · rcases List.mem_append.mp hmem with hmem | hmem
    · exact h.mappings.whole mapping hmem
    · rw [List.mem_singleton.mp hmem]
      exact hdvd
  · rcases List.mem_append.mp hmem with hmem | hmem
    · exact h.mappings.pages mapping hmem
    · rw [List.mem_singleton.mp hmem]
      exact fun _ hnone => absurd hnone List.not_mem_nil
  · rcases List.mem_append.mp hmem with hmem | hmem
    · exact h.each mapping hmem
    · rw [List.mem_singleton.mp hmem]
      exact hM

/-- A page of a mapping is loaded, and the process that asked for it is in step. -/
lemma setMapping (h : k.RegionsOk O M) {index i : ℕ} {mapping : VirtualMemoryMapping}
    (hmapping : k.mappings[index]? = some mapping) (hi : pageSize * i < mapping.size)
    (hsize : b.byteSize = pageSize)
    (hM : M { mapping with backedPages := mapping.backedPages ++ [(i, b)] }) :
    RegionsOk O M { k with
      mappings := k.mappings.set index
        { mapping with backedPages := mapping.backedPages ++ [(i, b)] } } := by
  have hmem := List.mem_of_getElem? hmapping
  refine ⟨⟨fun other hother => ?_, fun other hother => ?_⟩, fun other hother => ?_,
    fun i proc hproc => (h.process hproc).extend (Region.extends_set hmapping)⟩
  · rcases List.mem_or_eq_of_mem_set hother with hother | rfl
    · exact h.mappings.whole other hother
    · exact h.mappings.whole mapping hmem
  · rcases List.mem_or_eq_of_mem_set hother with hother | rfl
    · exact h.mappings.pages other hother
    · intro entry hentry
      rcases List.mem_append.mp hentry with hentry | hentry
      · exact h.mappings.pages mapping hmem entry hentry
      · obtain rfl := List.mem_singleton.mp hentry
        exact ⟨hi, hsize⟩
  · rcases List.mem_or_eq_of_mem_set hother with hother | rfl
    · exact h.each other hother
    · exact hM

/-- `load_page` -/
lemma loadPage (h : k.RegionsOk O M) (hproc : proc.RegionsOk O k.mappings) {range : AddressRange}
    {index stval : ℕ} (hwindow : (range, index) ∈ proc.virtualMemoryMappings)
    (hstart : range.start ≤ stval) (hstop : stval < range.stop)
    (hM : ∀ mapping b, k.mappings[index]? = some mapping → M mapping →
      M { mapping with
        backedPages := mapping.backedPages ++ [((stval - range.start) / pageSize, b)] })
    (hload : k.loadPage index range.start ((stval - range.start) / pageSize) proc =
      .ok (k', proc')) : (k'.setProcess proc').RegionsOk O M := by
  obtain ⟨mapping, contents, layout, page, k₀, k₁, phys, table, hmapping, hlayout, hpages, huses,
    hphys, hmap, rfl, rfl⟩ := loadPage_cases hload
  obtain ⟨regions, hstep⟩ := hproc.inStep
  obtain ⟨r, hr, size, hcontent, rfl⟩ := hstep.windows range index hwindow
  obtain ⟨_, hmapping', hsize, -, -⟩ : ∃ mapping, k.mappings[index]? = some mapping ∧
      mapping.size = size ∧ r.ptr + size ≤ virtualAddresses.stop ∧
      ∀ i, pageSize * i < size → mapping.PageOk proc.pageTable r.ptr i := by
    have hmapped := hstep.mapped r hr
    rw [Region.Mapped, hcontent] at hmapped
    exact hmapped
  obtain rfl := Option.some.inj (hmapping.symm.trans hmapping')
  have honly := (allocPages_onlyMemory hpages).trans huses.onlyMemory
  have hbyteSize : page.byteSize = pageSize :=
    (congrArg Layout.size (allocPages_eq_ok hpages).1).trans (pageLayout_size hlayout)
  have hi : pageSize * ((stval - r.ptr) / pageSize) < size :=
    (Nat.mul_div_le _ _).trans_lt (by simp only at hstart hstop; omega)
  have h₁ : k₁.RegionsOk O M := h.onlyMemory honly
  rw [← honly.mappings] at hmapping hstep
  have hset := h₁.setMapping hmapping (hsize.symm ▸ hi) hbyteSize
    (hM mapping page hmapping' (h.each mapping (List.mem_of_getElem? hmapping')))
  have hloaded := hstep.load hr hcontent hmapping hi hbyteSize hphys hmap
  exact hset.setProcess (hproc.of_inStep rfl rfl hloaded)

/-- `Process::alloc`, and the record is written back. -/
lemma allocIn (h : k.RegionsOk O M) (hproc : proc.RegionsOk O k.mappings) {virt : ℕ}
    (hb : b.WholePages) (hO : O proc.id (virt, b))
    (halloc : proc.alloc b PageFlags.readWrite.asUser = .ok (.ok virt, proc')) :
    (k.setProcess proc').RegionsOk O M := by
  obtain ⟨regions, hstep⟩ := hproc.inStep
  refine h.setProcess ⟨⟨_, hstep.alloc hb halloc⟩, fun entry hmem hle => ?_⟩
  rcases Process.alloc_cases halloc with ⟨e, heap, -, hnot, -⟩ | ⟨_, _, _, _, -, -, -, hvirt, rfl⟩
  · cases hnot
  · cases hvirt
    rcases List.mem_append.mp hmem with hmem | hmem
    · exact hproc.obtained entry hmem hle
    · rw [List.mem_singleton.mp hmem]
      exact hO

/-- `Process::alloc` without room. -/
lemma noRoom (h : k.RegionsOk O M) (hproc : k.process [] = .ok proc) (hnone : NoRoom k k' proc b) :
    k'.RegionsOk O M := by
  obtain ⟨e, proc', halloc, hdrop⟩ := hnone
  obtain ⟨regions, hstep⟩ := (h.running hproc).inStep
  obtain rfl := hstep.alloc_none halloc
  exact (h.setRunning hproc rfl rfl).onlyMemory (dropBacking_onlyMemory hdrop)

/-- `shared_memory_map` -/
lemma share (h : k.RegionsOk O M) (hproc : proc.RegionsOk O k.mappings) {handler : Handler}
    {length size virt : ℕ} {layout : Layout} {heap : BuddyAllocator}
    (hlength : k.sharedMemorySize handler = .ok length) (hle : length ≤ size)
    (hlayout : pageLayout size = .ok layout) (halloc : proc.heap.alloc layout = .ok (.ok virt, heap))
    (hmap : k.sharedMemoryMap handler virt { proc with heap := heap } = .ok proc') :
    proc'.RegionsOk O k.mappings := by
  obtain ⟨regions, hstep⟩ := hproc.inStep
  obtain ⟨content, hshared⟩ := hstep.share h.mappings hlength hle hlayout halloc hmap
  have hid : proc'.id = proc.id := (sharedMemoryMap_onlySpace hmap).id
  have hallocated : proc'.allocated = proc.allocated :=
    sharedMemoryMap_allocated hmap
  exact hproc.of_inStep hid hallocated hshared

/-! ## System calls -/

lemma exit (h : k.RegionsOk O M) {r : Except SyscallAction Empty} (hexit : k.exit = .ok (k', r)) :
    k'.RegionsOk O M := by
  obtain ⟨proc, hproc, rfl, -⟩ := exit_cases hexit
  exact h.setRunning hproc rfl rfl

/-- Two records are written back, and neither process holds anything else. -/
lemma setBoth (h : k.RegionsOk O M) {dest proc' dest' : Process} {server : ProcessId}
    (hproc : k.process [] = .ok proc) (hdest : k.process? server = some dest)
    (hid : proc'.id = proc.id) (hholdings : proc'.holdings = proc.holdings)
    (hid' : dest'.id = dest.id) (hholdings' : dest'.holdings = dest.holdings) :
    ((k.setProcess proc').setProcess dest').RegionsOk O M := by
  have hset : dest'.RegionsOk O k.mappings := (h.process hdest).congr hid' hholdings'
  exact (h.setRunning hproc hid hholdings).setProcess hset

lemma record (h : k.RegionsOk O M) {event : IpcEvent} : (k.record event).RegionsOk O M :=
  h.congr rfl rfl

lemma sfenceVmaAll (h : k.RegionsOk O M) : k.sfenceVmaAll.RegionsOk O M := h.congr rfl rfl

lemma sendMessage (h : k.RegionsOk O M) {dest : Process} {server : ProcessId} {message : Message}
    {state : ProcessState} {place : ReturnPlace} (hproc : k.process [] = .ok proc)
    (hsend : k.Sendable proc dest server message) :
    (k.sendMessage proc dest server state message place).RegionsOk O M := by
  refine record ?_
  exact h.setBoth hproc hsend.dest rfl rfl rfl rfl

lemma ipcReceive (h : k.RegionsOk O M) {args : UserSlice}
    {r : Except SyscallAction (Option RawCapability × ℕ × ℕ × Option ProcessId)}
    (hcall : k.ipcReceive args = .ok (k', r)) : k'.RegionsOk O M := by
  obtain ⟨proc, hproc, hkill | ⟨rfl, -⟩ | ⟨message, rest, -, -, hkill | ⟨k₁, hwrite, rfl, -⟩⟩⟩ :=
    ipcReceive_cases hcall
  · exact h.kill hproc hkill rfl rfl
  · exact h
  · exact h.kill hproc hkill rfl rfl
  · have honly := writeToUser_onlyMemory hwrite
    have hproc₁ : k₁.process [] = .ok proc :=
      (process_congr honly.processes honly.userPid []).trans hproc
    refine record ?_
    exact (h.onlyMemory honly).setRunning hproc₁ rfl rfl

lemma ipcReply (h : k.RegionsOk O M) {result : UserSlice} {r : Except SyscallAction Unit}
    (hcall : k.ipcReply P result = .ok (k', r)) : k'.RegionsOk O M := by
  obtain ⟨k₁, proc, huses, hproc, hcases⟩ := ipcReply_cases hcall
  replace h := h.onlyMemory huses.onlyMemory
  rcases hcases with hkill | ⟨callerId, caller, -, -, hcaller, ⟨server, -, -, hkill⟩ |
    ⟨resultBuffer, reply, -, -, -, rfl⟩ | ⟨-, ⟨reason, -, hkill⟩ | ⟨ring, declaredSize, -, rfl⟩⟩⟩
  · exact h.kill hproc hkill rfl rfl
  · exact h.kill hproc hkill rfl rfl
  · refine record ?_
    exact h.setBoth hproc hcaller rfl rfl rfl rfl
  · exact h.kill hproc hkill rfl rfl
  · refine record ?_
    exact h.setBoth hproc hcaller rfl rfl rfl rfl

/-- The ring of an input device is a region that is not on the list. -/
lemma ipcStream (h : k.RegionsOk O M) (hmemory : k.MemoryOk P ∅) {cap : RawCapability} {stream : ℕ}
    {r : Except SyscallAction (ℕ × ℕ)} (hcall : k.ipcStream cap stream = .ok (k', r)) :
    k'.RegionsOk O M := by
  obtain ⟨k₁, proc, root, huses, hproc, -, hcases⟩ := ipcStream_cases hcall
  replace h := h.onlyMemory huses.onlyMemory
  replace hmemory := hmemory.usesHeap huses
  rcases hcases with ⟨server, dest, message, hsend, -, -, -, rfl, -⟩ |
    ⟨handler, ring, layout, heap, -, hring, hlayout, ⟨halloc, rfl, -⟩ |
      ⟨virt, phys, table, halloc, hphys, hmap, rfl, -⟩⟩
  · exact h.sendMessage hproc hsend
  · obtain ⟨regions, hstep⟩ := (h.running hproc).inStep
    have hsame : heap = proc.heap := hstep.alloc_error halloc
    exact h.setRunning hproc rfl (by rw [hsame])
  · obtain ⟨regions, hstep⟩ := (h.running hproc).inStep
    have hmem := MemoryOk.mapStream_mem_rings hring
    have hsize : pageSize = ring.byteSize := (hmemory.page_size ring (Or.inl hmem)).symm
    rw [hsize] at hmap
    have hmapped := hstep.mapAt hlayout le_rfl halloc hphys hmap
    exact sfenceVmaAll (h.setProcess ((h.running hproc).of_inStep rfl rfl hmapped))

lemma mapShared (h : k.RegionsOk O M) {cap : RawCapability} {r : Except SyscallAction (ℕ × ℕ)}
    (hcall : k.mapShared cap = .ok (k', r)) : k'.RegionsOk O M := by
  obtain ⟨k₁, proc, root, huses, hproc, -, hcases⟩ := mapShared_cases hcall
  replace h := h.onlyMemory huses.onlyMemory
  rcases hcases with hkill | ⟨handler, length, padded, layout, heap, -, hhandler, hlength, hpadded,
    hlayout, ⟨halloc, rfl, -⟩ | ⟨virt, proc', halloc, hmap, rfl, -⟩⟩
  · exact h.kill hproc hkill rfl rfl
  · obtain ⟨regions, hstep⟩ := (h.running hproc).inStep
    have hsame : heap = proc.heap := hstep.alloc_error halloc
    exact h.setRunning hproc rfl (by rw [hsame])
  · have hle : length ≤ padded := by
      rw [nextMultipleOfPage_eq_ok hpadded]
      exact le_nextMultipleOf _ _
    exact sfenceVmaAll (h.setProcess (h.share (h.running hproc) hlength hle hlayout halloc hmap))

lemma free (h : k.RegionsOk O M) {ptr : ℕ} {r : Except SyscallAction Unit}
    (hcall : k.free ptr = .ok (k', r)) : k'.RegionsOk O M := by
  obtain ⟨proc, hproc, ⟨-, hkill⟩ | ⟨proc', b, hdealloc, hdrop, -⟩⟩ := free_cases hcall
  · exact h.kill hproc hkill rfl rfl
  · obtain ⟨regions, hstep⟩ := (h.running hproc).inStep
    obtain ⟨before, region, after, -, -, -, hrest, hperm, honly⟩ := hstep.of_dealloc hdealloc
    refine RegionsOk.onlyMemory (h.setProcess ⟨⟨_, hrest⟩, fun entry hmem hle => ?_⟩)
      (dropBacking_onlyMemory hdrop)
    rw [honly.id]
    exact (h.running hproc).obtained entry (hperm.mem_iff.mpr (List.mem_cons_of_mem _ hmem)) hle

lemma log (h : k.RegionsOk O M) {message : UserSlice} {level : ℕ} {r : Except SyscallAction Unit}
    (hcall : k.log message level = .ok (k', r)) : k'.RegionsOk O M := by
  obtain ⟨k₁, proc, huses, hproc, hcases⟩ := log_cases hcall
  replace h := h.onlyMemory huses.onlyMemory
  rcases hcases with hkill | hkill | ⟨rfl, -⟩
  · exact h.kill hproc hkill rfl rfl
  · exact h.kill hproc hkill rfl rfl
  · exact h

/-- **A new process has nothing in its heap.** -/
lemma createProcess (h : k.RegionsOk O M) {elf : Elf} {args : List RawCapability}
    (hcreate : createProcess P k elf id args = .ok k') : k'.RegionsOk O M := by
  obtain ⟨k₁, proc, honly, hfresh, -, rfl⟩ := createProcess_frame hcreate
  obtain ⟨proc', hproc', -, hstep⟩ := createProcess_inStep hcreate
  rw [process?_setProcess, if_pos hfresh.id.symm] at hproc'
  obtain rfl := Option.some.inj hproc'
  refine (h.onlyMemory honly).setProcess ⟨⟨[], hstep _⟩, fun entry hmem hle => ?_⟩
  have hin : entry.1 ∈ userHeap.addresses := ⟨hle, (hstep []).below entry hmem⟩
  obtain ⟨r, hr, -⟩ := (hstep []).exists_region hmem hin
  exact absurd hr List.not_mem_nil

lemma callMethod (h : k.RegionsOk O M) (hnew : ∀ first size, M ⟨first, size, []⟩)
    {handler : Handler} {method : ℕ} {args reply : List UInt8} {sender : ProcessId}
    (hcall : k.callMethod P handler method args sender = .ok (reply, k')) :
    k'.RegionsOk O M := by
  rcases callMethod_cases hcall with rfl | ⟨backing, -, honly⟩ |
    ⟨sectorOffset, size, hdvd, honly⟩ | ⟨elf, child, caps, k₁, -, -, honly, hcreate⟩
  · exact h
  · refine RegionsOk.onlyMemory ?_ honly
    exact h.congr rfl rfl
  · refine RegionsOk.onlyMemory ?_ honly
    exact (h.addMapping hdvd (hnew _ _)).congr rfl rfl
  · have h₁ : k₁.RegionsOk O M := by
      refine RegionsOk.onlyMemory ?_ honly
      exact h.congr rfl rfl
    exact h₁.createProcess hcreate

lemma ipcCall (h : k.RegionsOk O M) (hnew : ∀ first size, M ⟨first, size, []⟩)
    {cap : RawCapability} {method : ℕ} {argsBuffer resultBuffer : UserSlice} {r : Except SyscallAction ℕ}
    (hcall : k.ipcCall P cap method argsBuffer resultBuffer = .ok (k', r)) : k'.RegionsOk O M := by
  obtain ⟨k₀, proc, root, huses, hproc, -, hcases⟩ := ipcCall_cases hcall
  replace h := h.onlyMemory huses.onlyMemory
  rcases hcases with hkill | ⟨server, dest, message, hsend, -, -, -, rfl, -⟩ |
    ⟨handler, args, sender, reply, k₁, -, -, -, hmethod, ⟨proc', hproc', hkill⟩ | ⟨hwrite, -⟩⟩
  · exact h.kill hproc hkill rfl rfl
  · exact h.sendMessage hproc hsend
  · exact (h.callMethod hnew hmethod).kill hproc' hkill rfl rfl
  · exact (h.callMethod hnew hmethod).onlyMemory (writeToUser_onlyMemory hwrite)

end RegionsOk

/-! ## Memory of the caller -/

/-- The system call that is made is `alloc` or `alloc_shared`, and it returns `entry.1` to the
process `id`, with the entry on its list. -/
inductive Allocates (P : Platform) (k : Kernel) (id : ProcessId) (entry : ℕ × Backing) : Prop
  | alloc (k' : Kernel) (proc' : Process) (hrunning : k.userPid = some id)
      (hnumber : k.registers .a6 = 5) (hcall : k.alloc (k.registers .a0) = .ok (k', .ok entry.1))
      (hproc : k'.process? id = some proc') (hmem : entry ∈ proc'.allocated)
  | allocShared (k' : Kernel) (proc' : Process) (cap : RawCapability)
      (hrunning : k.userPid = some id) (hnumber : k.registers .a6 = 6)
      (hcall : k.allocShared P (k.registers .a0) = .ok (k', .ok (entry.1, cap)))
      (hproc : k'.process? id = some proc') (hmem : entry ∈ proc'.allocated)

lemma Slots.running (h : k.Slots) {held : List ProcessId} (hproc : k.process held = .ok proc) :
    k.userPid = some proc.id ∧ k.process? proc.id = some proc := by
  obtain ⟨pid, hpid, -, -, hslot⟩ := process_eq_ok hproc
  obtain rfl : pid = proc.id := ProcessId.ext (h hslot).symm
  exact ⟨hpid, hslot⟩

namespace RegionsOk

lemma alloc (h : k.RegionsOk O M) (hslots : k.Slots) (hnumber : k.registers .a6 = 5)
    {r : Except SyscallAction ℕ} (hcall : k.alloc (k.registers .a0) = .ok (k', r))
    (hO : ∀ id entry, k.Allocates P id entry → O id entry) : k'.RegionsOk O M := by
  rcases alloc_cases hcall with ⟨-, rfl | ⟨layout, e, herror⟩⟩ |
    ⟨layout, pages, k₁, proc, hpages, ⟨hnone, -⟩ | ⟨virt, proc', halloc, rfl, rfl⟩⟩
  · exact h
  · exact h.onlyMemory (allocPages_onlyMemory herror)
  · exact (h.onlyMemory hpages.onlyMemory).noRoom hpages.proc hnone
  · have h₁ := h.onlyMemory hpages.onlyMemory
    obtain ⟨phys, hphys⟩ := Process.alloc_phys halloc
    have hallocates : k.Allocates P proc.id (virt, pages) := by
      refine .alloc _ proc' (hslots.running hpages.process_eq).1 hnumber hcall ?_
        (Process.alloc_mem halloc)
      exact (process?_setProcess k₁ proc' _).trans
        (if_pos (Process.alloc_onlySpace halloc).id.symm)
    exact sfenceVmaAll (h₁.allocIn (h₁.running hpages.proc) (hpages.wholePages (Or.inr ⟨phys, hphys⟩))
      (hO _ _ hallocates) halloc)

lemma allocShared (h : k.RegionsOk O M) (hslots : k.Slots) (hnumber : k.registers .a6 = 6)
    {r : Except SyscallAction (ℕ × RawCapability)}
    (hcall : k.allocShared P (k.registers .a0) = .ok (k', r))
    (hO : ∀ id entry, k.Allocates P id entry → O id entry) : k'.RegionsOk O M := by
  obtain ⟨layout, pages, k₁, proc, hpages, ⟨hnone, -⟩ |
    ⟨virt, proc', grantee, cap, halloc, hgrant, rfl⟩⟩ := allocShared_cases hcall
  · exact (h.onlyMemory hpages.onlyMemory).noRoom hpages.proc hnone
  · have h₁ := h.onlyMemory hpages.onlyMemory
    have honly := grantKernelCapability_onlyMemory hgrant
    obtain ⟨phys, hphys⟩ := Process.alloc_phys halloc
    have hallocates : k.Allocates P proc.id (virt, pages) := by
      refine .allocShared k' proc' cap (hslots.running hpages.process_eq).1 hnumber hcall ?_
        (Process.alloc_mem halloc)
      rw [process?, honly.processes]
      exact (process?_setProcess k₁ proc' _).trans
        (if_pos (Process.alloc_onlySpace halloc).id.symm)
    refine RegionsOk.onlyMemory ?_ honly
    refine congr (h₁.allocIn (h₁.running hpages.proc) (hpages.wholePages (Or.inr ⟨phys, hphys⟩))
      (hO _ _ hallocates) halloc) rfl rfl

end RegionsOk

/-- **Every call keeps the processes in step.** -/
theorem eachCall_regionsOk (hmemory : k.MemoryOk P ∅) (h : k.RegionsOk O M)
    (hnew : ∀ first size, M ⟨first, size, []⟩)
    (hO : ∀ id entry, k.Allocates P id entry → O id entry) :
    EachCall P k fun k' _ => k'.RegionsOk O M where
  registers hk := hk.congr rfl rfl
  userErr := h
  yield := h
  exit := h.exit
  ipcCall := h.ipcCall hnew
  ipcReceive := h.ipcReceive
  ipcReply := h.ipcReply
  ipcStream := h.ipcStream hmemory
  alloc hnumber hcall := h.alloc hmemory.slots hnumber hcall hO
  allocShared hnumber hcall := h.allocShared hmemory.slots hnumber hcall hO
  mapShared := h.mapShared
  free _ _ := h.free
  log := h.log

/-! ## Traps and turns of the scheduler -/

/-- Whatever page is loaded for a fault at `stval`, its mapping keeps `M`. -/
def LoadKeeps (M : VirtualMemoryMapping → Prop) (k : Kernel) (stval : ℕ) : Prop :=
  ∀ ⦃proc⦄, k.process [] = .ok proc → ∀ ⦃range index⦄, (range, index) ∈ proc.virtualMemoryMappings →
    range.start ≤ stval → stval < range.stop → proc.pageTable.isMapped stval = .ok false →
    ∀ ⦃mapping⦄, k.mappings[index]? = some mapping → ∀ b, M mapping →
      M { mapping with
        backedPages := mapping.backedPages ++ [((stval - range.start) / pageSize, b)] }

namespace RegionsOk

lemma handlePageFault (h : k.RegionsOk O M) (hmemory : k.MemoryOk P ∅) {stval : ℕ}
    (hload : k.LoadKeeps M stval) {r : Except SyscallAction Unit}
    (hfault : k.handlePageFault stval = .ok (k', r)) : k'.RegionsOk O M := by
  obtain ⟨proc, hproc, hkill | ⟨proc', hagain⟩ |
    ⟨range, index, k₁, proc', hwindow, hstart, hstop, hmissing, hpage, rfl, -⟩⟩ :=
    handlePageFault_cases hfault
  · exact h.kill hproc hkill rfl rfl
  · exact absurd hagain (hmemory.process_locked hproc)
  · exact sfenceVmaAll (h.loadPage (h.running hproc) hwindow hstart hstop
      (fun mapping b hmapping => hload hproc hwindow hstart hstop hmissing hmapping b) hpage)

lemma onUserTrapImpl (h : k.RegionsOk O M) (hmemory : k.MemoryOk P ∅) {cause : Cause}
    (hnew : ∀ first size, M ⟨first, size, []⟩)
    (hload : ∀ stval, cause = .pageFault stval → k.LoadKeeps M stval)
    (hO : cause = .userEnvCall → ∀ id entry, k.Allocates P id entry → O id entry)
    {r : Except SyscallAction Unit} (htrap : k.onUserTrapImpl P cause = .ok (k', r)) :
    k'.RegionsOk O M := by
  rcases onUserTrapImpl_cases htrap with ⟨hcause, k₁, r₁, hcall, hcases⟩ | ⟨stores, -, rfl, -⟩ |
    ⟨stval, hcause, hfault⟩
  · have h₁ : k₁.RegionsOk O M := dispatchSyscall_rule (eachCall_regionsOk hmemory h hnew (hO hcause)) hcall
    rcases hcases with ⟨sepc, -, rfl, -⟩ | ⟨err, -, rfl, -⟩ | ⟨proc, pc, -, hproc, rfl, -⟩
    · exact h₁.congr rfl rfl
    · exact h₁
    · exact h₁.setRunning hproc rfl rfl
  · exact h.congr rfl rfl
  · exact h.handlePageFault hmemory (hload stval hcause) hfault

lemma killManual (h : k.RegionsOk O M) (hproc : k.process [] = .ok proc) {reason : KillReason} :
    (k.killManual proc reason).RegionsOk O M := by
  have hproc' : (k.logKill proc reason).process [] = .ok proc :=
    (process_congr rfl rfl []).trans hproc
  exact h.logKill.setRunning hproc' rfl rfl

/-- **A trap keeps the processes in step.** -/
theorem onUserTrap (h : k.RegionsOk O M) (hmemory : k.MemoryOk P ∅) {cause : Cause}
    (hnew : ∀ first size, M ⟨first, size, []⟩)
    (hload : ∀ stval, cause = .pageFault stval → k.LoadKeeps M stval)
    (hO : cause = .userEnvCall → ∀ id entry, k.Allocates P id entry → O id entry)
    (htrap : k.onUserTrap P cause = .ok (k', mode)) : k'.RegionsOk O M := by
  obtain ⟨k₁, r, himpl, hcases⟩ := onUserTrap_cases htrap
  have h₁ := h.onUserTrapImpl hmemory hnew hload hO himpl
  rcases hcases with ⟨-, rfl, -⟩ | ⟨proc, hproc, -, ⟨err, -, rfl⟩ | ⟨-, rfl⟩⟩
  · exact h₁
  · exact h₁.killManual hproc
  · exact h₁.setRunning hproc rfl rfl

lemma findRunnableProcess (h : k.RegionsOk O M) (hmemory : k.MemoryOk P ∅)
    (hfind : k.findRunnableProcess = .ok (k', some next)) :
    k'.RegionsOk O M ∧ k'.process? next.id = some next := by
  obtain ⟨h', hnext, -⟩ := scan_rule (fun k => k.MemoryOk P ∅ ∧ k.RegionsOk O M)
    (fun h => h.1.slots)
    (fun {k k' proc server} h hproc _ _ _ hk' => by
      subst hk'
      refine ⟨MemoryOk.logKill ?_, RegionsOk.logKill ?_⟩
      · exact h.1.setSame hproc rfl rfl rfl
      · exact h.2.setSame hproc rfl rfl)
    (fun {k k' i proc} h hproc hi _ hreap => by
      subst hi
      exact ⟨h.1.reap hproc hreap, h.2.reap hreap⟩) ⟨hmemory, h⟩ hfind
  exact ⟨h'.2, hnext⟩

lemma resumeProcess (h : k.RegionsOk O M) (hnext : k.process? next.id = some next)
    {r : Except UserSyscallError Unit} (hresume : k.resumeProcess next = .ok (k', r)) :
    k'.RegionsOk O M := by
  have h₁ : (k.setUserspaceProcess next).RegionsOk O M := h.congr rfl rfl
  have hproc : next.RegionsOk O k.mappings := h.process hnext
  rcases resumeProcess_cases hresume with ⟨-, -, rfl⟩ |
    ⟨reply, resultBuffer, -, ⟨-, rfl⟩ | ⟨k₁, hwrite, -, rfl⟩⟩ |
    ⟨ring, declaredSize, handler, length, layout, virt, heap, k₁, next', -, huses, -, hlength, hlayout,
      halloc, hmap, -, rfl⟩
  · exact h₁.congr rfl rfl
  · exact h₁
  · have honly := writeToUser_onlyMemory hwrite
    have hset := (h₁.onlyMemory honly).setProcess
      ((hproc.congr rfl rfl : Process.RegionsOk O k.mappings { next with
        registers := Function.update next.registers .a0 reply.length
        state := .runnable }).extend (honly.mappings ▸ fun _ m hm => ⟨m, hm, rfl, fun _ h => h⟩))
    exact hset.congr rfl rfl
  · have h₂ := h₁.onlyMemory huses.onlyMemory
    have hproc₁ : next.RegionsOk O k₁.mappings := h₂.process ((huses.process? _).trans hnext)
    have hshared := h₂.share hproc₁ hlength le_rfl hlayout halloc hmap
    have hset := h₂.setProcess (hshared.congr rfl rfl : Process.RegionsOk O k₁.mappings { next' with
      registers := Function.update (Function.update next'.registers .a0 virt) .a1 declaredSize
      state := .runnable })
    exact hset.congr rfl rfl

/-- **A turn of the scheduler keeps the processes in step.** -/
theorem scheduleUserspace (h : k.RegionsOk O M) (hmemory : k.MemoryOk P ∅)
    (hturn : k.scheduleUserspace = .ok (k', mode)) : k'.RegionsOk O M := by
  obtain ⟨k₁, next, k₂, r, hfind, hresume, hcases⟩ := scheduleUserspace_cases hturn
  obtain ⟨h₁, hnext⟩ := h.findRunnableProcess hmemory hfind
  have h₂ := h₁.resumeProcess hnext hresume
  rcases hcases with ⟨-, rfl, -⟩ | ⟨err, proc, -, hproc, rfl, -⟩
  · exact h₂
  · exact h₂.killManual hproc

/-! ## Boot -/

lemma reserveProcess (h : k.RegionsOk O M) {pid : ProcessId} {exported : RawCapability}
    (hreserve : k.reserveProcess = .ok (pid, exported, k')) : k'.RegionsOk O M := by
  obtain ⟨-, rfl⟩ := reserveProcess_eq_ok hreserve
  exact h.congr rfl rfl

lemma reserveKernelCapability (h : k.RegionsOk O M) {handler : Handler} {cap : RawCapability}
    (hreserve : k.reserveKernelCapability handler = .ok (cap, k')) : k'.RegionsOk O M := by
  obtain ⟨-, -, rfl⟩ := reserveKernelCapability_eq_ok hreserve
  exact h.congr rfl rfl

lemma spawn (h : k.RegionsOk O M) {elf : Elf} {args : List RawCapability}
    (hspawn : k.spawn P elf id args = .ok k') : k'.RegionsOk O M := by
  obtain ⟨k₁, hstores, hcreate⟩ := Checked.bind_eq_ok.mp hspawn
  have h₁ := Checked.foldlM_keeps (fun s : Kernel => s.RegionsOk O M) h
    (fun cap _ s s' hs hstep => hs.onlyMemory (storeCertificate_onlyMemory hstep)) hstores
  exact h₁.createProcess hcreate

lemma startProcesses (h : k.RegionsOk O M) (hstart : startProcesses P k = .ok k') :
    k'.RegionsOk O M := by
  obtain ⟨⟨fat, fatExport, k₁⟩, h₁, hstart⟩ := Checked.bind_eq_ok.mp hstart
  obtain ⟨⟨windowing, windowingExport, k₂⟩, h₂, hstart⟩ := Checked.bind_eq_ok.mp hstart
  obtain ⟨⟨display, k₃⟩, h₃, hstart⟩ := Checked.bind_eq_ok.mp hstart
  obtain ⟨⟨keyboard, k₄⟩, h₄, hstart⟩ := Checked.bind_eq_ok.mp hstart
  obtain ⟨⟨mouse, k₅⟩, h₅, hstart⟩ := Checked.bind_eq_ok.mp hstart
  obtain ⟨⟨imageViewer, k₆⟩, h₆, hstart⟩ := Checked.bind_eq_ok.mp hstart
  obtain ⟨⟨net, k₇⟩, h₇, hstart⟩ := Checked.bind_eq_ok.mp hstart
  obtain ⟨⟨shutdown, k₈⟩, h₈, hstart⟩ := Checked.bind_eq_ok.mp hstart
  obtain ⟨⟨terminal, k₉⟩, h₉, hstart⟩ := Checked.bind_eq_ok.mp hstart
  obtain ⟨⟨shell, k₁₀⟩, h₁₀, hstart⟩ := Checked.bind_eq_ok.mp hstart
  obtain ⟨k₁₁, h₁₁, hstart⟩ := Checked.bind_eq_ok.mp hstart
  obtain ⟨⟨drive, k₁₂⟩, h₁₂, hstart⟩ := Checked.bind_eq_ok.mp hstart
  have s₂ := (h.reserveProcess h₁).reserveProcess h₂
  have s₅ := ((s₂.reserveKernelCapability h₃).reserveKernelCapability h₄).reserveKernelCapability h₅
  have s₈ := ((s₅.reserveKernelCapability h₆).reserveKernelCapability h₇).reserveKernelCapability h₈
  have s₁₀ := (s₈.reserveKernelCapability h₉).reserveKernelCapability h₁₀
  exact ((s₁₀.spawn h₁₁).reserveKernelCapability h₁₂).spawn hstart

end RegionsOk

/-- The processes that `main` starts are in step. -/
theorem main_regionsOk {oracle : Oracle} (h : main P oracle = .ok k) : k.RegionsOk O M := by
  obtain ⟨heap, -, h⟩ := Checked.bind_eq_ok.mp h
  obtain ⟨k₁, hpci, h⟩ := Checked.bind_eq_ok.mp h
  refine RegionsOk.startProcesses ?_ h
  simp only [initializeAllPci] at hpci
  split at hpci
  · obtain ⟨⟨cursorImage, k₂⟩, h₁, hpci⟩ := Checked.bind_eq_ok.mp hpci
    obtain ⟨⟨framebuffer, k₃⟩, h₂, hpci⟩ := Checked.bind_eq_ok.mp hpci
    obtain ⟨⟨keyboardRing, k₄⟩, h₃, hpci⟩ := Checked.bind_eq_ok.mp hpci
    obtain ⟨⟨mouseRing, k₅⟩, h₄, hpci⟩ := Checked.bind_eq_ok.mp hpci
    cases hpci
    have honly := ((newPages_onlyMemory h₁).trans (newPages_onlyMemory h₂)).trans
      ((newPages_onlyMemory h₃).trans (newPages_onlyMemory h₄))
    have hbare : ∀ memory heap devices oracle,
        (Kernel.bare memory heap devices oracle).RegionsOk O M := fun memory heap devices oracle =>
      ⟨⟨fun mapping hmem => absurd hmem List.not_mem_nil,
        fun mapping hmem => absurd hmem List.not_mem_nil⟩,
        fun mapping hmem => absurd hmem List.not_mem_nil, fun i proc hproc => by cases hproc⟩
    exact ((hbare _ _ _ _).onlyMemory honly).congr rfl rfl
  · cases hpci

end Kernel

/-! ## Runs -/

/-- A process got an entry of its list from a call that it made on the way to `s`. -/
def Obtained (P : Platform) (s : Kernel × Mode) (id : ProcessId) (entry : ℕ × Backing) : Prop :=
  ∃ (k : Kernel) (oracle : Oracle) (s₁ : Kernel × Mode), Reachable P (k, .user) ∧
    Kernel.Allocates P { k with oracle := oracle } id entry ∧
    { k with oracle := oracle }.onUserTrap P .userEnvCall = .ok s₁ ∧
    Relation.ReflTransGen (fun s s' => ∃ cause, Step P s cause s') s₁ s

lemma Obtained.step {s s' : Kernel × Mode} {cause : Option Cause} {entry : ℕ × Backing}
    (h : Obtained P s id entry) (hstep : Step P s cause s') : Obtained P s' id entry := by
  obtain ⟨k, oracle, s₁, hreachable, hallocates, htrap, hrun⟩ := h
  exact ⟨k, oracle, s₁, hreachable, hallocates, htrap, hrun.tail ⟨cause, hstep⟩⟩

/-- **In every reachable state every process is in step, and what its list has in the heap it has
obtained.** -/
theorem Reachable.regionsOk {s : Kernel × Mode} (h : Reachable P s) :
    s.1.RegionsOk (Obtained P s) (fun _ => True) := by
  induction h with
  | main oracle hmain => exact Kernel.main_regionsOk hmain
  | @step s s' cause hreachable hstep ih =>
      have hkept := ih.mono fun id entry h => h.step hstep
      cases hstep with
      | user hstep =>
          refine hkept.congr ?_ ?_
          · rw [hstep.same]
          · rw [hstep.same]
      | trap oracle htrap =>
          refine (hkept.withOracle oracle).onUserTrap (hreachable.memoryOk.withOracle oracle)
            (fun _ _ => trivial) (fun _ _ _ _ _ _ _ _ _ _ _ _ _ _ => trivial) ?_ htrap
          rintro rfl id entry hallocates
          exact ⟨_, oracle, _, hreachable, hallocates, htrap, .refl⟩
      | schedule oracle hturn =>
          exact (hkept.withOracle oracle).scheduleUserspace
            (hreachable.memoryOk.withOracle oracle) hturn

end Deravel
