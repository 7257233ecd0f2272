import DeravelOs.Kernel.Dispatch

/-!
# What a turn of the system can do

Inversion lemmas for the trap handler and the scheduler, and the rule for the scan for a runnable
process.

* `onUserTrap_cases`: what becomes of the result of a trap.
* `scan_rule`: what inspecting and reaping keep holds after the scan.
* `scheduleUserspace_cases`, `resumeProcess_cases`: the return to a process.
-/

namespace Deravel

variable {P : Platform} {k k' : Kernel} {proc proc' : Process} {pid : ProcessId} {mode : Mode}

namespace Kernel

/-! ## Traps -/

/-- What `load_page` reads from the drive, and where the page is put. -/
lemma loadPage_eq_ok {index virtBase pageIndex : ℕ}
    (h : k.loadPage index virtBase pageIndex proc = .ok (k', proc')) :
    ∃ mapping contents layout page k₀ k₁ phys pageTable, k.mappings[index]? = some mapping ∧
      k.loadSectors mapping.sectorOffset pageIndex = .ok contents ∧
      pageLayout pageSize = .ok layout ∧
      k.allocPages layout (fun i => contents.getD i 0) = .ok (.ok page, k₀) ∧
      k₀.UsesHeap k₁ ∧ virtToPhys page.ptr = .ok phys ∧
      proc.pageTable.map (virtBase + pageSize * pageIndex) phys pageSize
        PageFlags.readonly.asUser = .ok pageTable ∧
      k' = { k₁ with
        mappings := k₁.mappings.set index
          { mapping with backedPages := mapping.backedPages ++ [(pageIndex, page)] } } ∧
      proc' = { proc with pageTable := pageTable } := by
  obtain ⟨mapping, hmapping, h⟩ := Checked.bind_eq_ok.mp h
  obtain ⟨contents, hcontents, h⟩ := Checked.bind_eq_ok.mp h
  obtain ⟨layout, hlayout, h⟩ := Checked.bind_eq_ok.mp h
  obtain ⟨⟨page, k₀⟩, hpage, h⟩ := Checked.bind_eq_ok.mp h
  obtain ⟨k₁, hchurn, h⟩ := Checked.bind_eq_ok.mp h
  obtain ⟨phys, hphys, h⟩ := Checked.bind_eq_ok.mp h
  obtain ⟨pageTable, hmap, h⟩ := Checked.bind_eq_ok.mp h
  cases h
  refine ⟨mapping, contents, layout, page, k₀, k₁, phys, pageTable, ?_, hcontents, hlayout,
    newPages_eq_ok.mp hpage, churn_usesHeap hchurn, hphys, hmap, rfl, rfl⟩
  simp only [getMapping] at hmapping
  split at hmapping
  · next heq =>
      cases hmapping
      exact heq
  · cases hmapping

lemma loadPage_cases {index virtBase pageIndex : ℕ}
    (h : k.loadPage index virtBase pageIndex proc = .ok (k', proc')) :
    ∃ mapping contents layout page k₀ k₁ phys pageTable, k.mappings[index]? = some mapping ∧
      pageLayout pageSize = .ok layout ∧
      k.allocPages layout contents = .ok (.ok page, k₀) ∧ k₀.UsesHeap k₁ ∧
      virtToPhys page.ptr = .ok phys ∧
      proc.pageTable.map (virtBase + pageSize * pageIndex) phys pageSize
        PageFlags.readonly.asUser = .ok pageTable ∧
      k' = { k₁ with
        mappings := k₁.mappings.set index
          { mapping with backedPages := mapping.backedPages ++ [(pageIndex, page)] } } ∧
      proc' = { proc with pageTable := pageTable } := by
  obtain ⟨mapping, contents, layout, page, k₀, k₁, phys, pageTable, hmapping, -, hrest⟩ :=
    loadPage_eq_ok h
  exact ⟨mapping, _, layout, page, k₀, k₁, phys, pageTable, hmapping, hrest⟩

lemma onUserTrapImpl_cases {cause : Cause} {r : Except SyscallAction Unit}
    (h : k.onUserTrapImpl P cause = .ok (k', r)) :
    (cause = .userEnvCall ∧ ∃ k₁ r₁, k.dispatchSyscall P = .ok (k₁, r₁) ∧
      ((∃ sepc, r₁ = .ok () ∧ k' = { k₁ with sepc := sepc } ∧ r = .ok ()) ∨
      (∃ err, r₁ = .error (.userErr err) ∧ k' = k₁ ∧ r = r₁) ∨
      ∃ proc pc, r₁ = .error .yield ∧ k₁.process [] = .ok proc ∧
        k' = k₁.setProcess { proc with pc := pc } ∧ r = r₁)) ∨
    (∃ stores : List (ℕ × UInt8), (∀ store ∈ stores, k.inRing store.1) ∧
      k' = { k with memory := storeBytes k.memory stores } ∧ r = .ok ()) ∨
    ∃ stval, cause = .pageFault stval ∧ k.handlePageFault stval = .ok (k', r) := by
  cases cause with
  | userEnvCall =>
      refine Or.inl ⟨rfl, ?_⟩
      obtain ⟨⟨k₁, r₁⟩, hcall, h⟩ := Checked.bind_eq_ok.mp h
      refine ⟨k₁, r₁, hcall, ?_⟩
      cases r₁ with
      | ok u =>
          obtain ⟨sepc, -, h⟩ := Checked.bind_eq_ok.mp h
          cases h
          exact Or.inl ⟨sepc, rfl, rfl, rfl⟩
      | error action =>
          cases action with
          | userErr err =>
              cases h
              exact Or.inr (Or.inl ⟨err, rfl, rfl, rfl⟩)
          | yield =>
              obtain ⟨proc, hproc, h⟩ := Checked.bind_eq_ok.mp h
              obtain ⟨pc, -, h⟩ := Checked.bind_eq_ok.mp h
              cases h
              exact Or.inr (Or.inr ⟨proc, pc, rfl, hproc, rfl, rfl⟩)
  | supervisorTimer =>
      cases h
      exact Or.inr (Or.inl ⟨[], by simp, rfl, rfl⟩)
  | supervisorExternal =>
      obtain ⟨stores, -, h⟩ := Checked.bind_eq_ok.mp h
      cases h
      refine Or.inr (Or.inl ⟨_, ?_, rfl, rfl⟩)
      intro store hstore
      exact (List.mem_filter.mp hstore).2
  | pageFault stval => exact Or.inr (Or.inr ⟨stval, rfl, h⟩)
  | other => cases h

lemma onUserTrap_cases {cause : Cause} (h : k.onUserTrap P cause = .ok (k', mode)) :
    ∃ k₁ r, k.onUserTrapImpl P cause = .ok (k₁, r) ∧
      (r = .ok () ∧ k' = k₁ ∧ mode = .user ∨
      ∃ proc, k₁.process [] = .ok proc ∧ mode = .schedule ∧
        ((∃ err, r = .error (.userErr err) ∧ k' = k₁.killManual proc (.userError err)) ∨
        r = .error .yield ∧ k' = k₁.setProcess { proc with registers := k₁.registers })) := by
  obtain ⟨⟨k₁, r⟩, hcall, h⟩ := Checked.bind_eq_ok.mp h
  refine ⟨k₁, r, hcall, ?_⟩
  cases r with
  | ok u =>
      cases h
      exact Or.inl ⟨rfl, rfl, rfl⟩
  | error action =>
      cases action with
      | userErr err =>
          obtain ⟨proc, hproc, h⟩ := Checked.bind_eq_ok.mp h
          cases h
          exact Or.inr ⟨proc, hproc, rfl, Or.inl ⟨err, rfl, rfl⟩⟩
      | yield =>
          obtain ⟨proc, hproc, h⟩ := Checked.bind_eq_ok.mp h
          cases h
          exact Or.inr ⟨proc, hproc, rfl, Or.inr ⟨rfl, rfl⟩⟩

/-! ## The scheduler -/

lemma inspectCanProgress_cases (h : k.inspectCanProgress proc = .ok (k', proc')) :
    k' = k ∧ proc' = proc ∨
    ∃ server, proc.state.waitsFor = some (.userspace server) ∧ server ≠ proc.id ∧
      (∀ dest, k.process? server = some dest → dest.state = .finished) ∧
      proc' = { proc with state := .finished } ∧
      k' = (k.setProcess proc').logKill proc' (.waitingOnFinished server) := by
  simp only [inspectCanProgress] at h
  split at h
  · next server hwaits =>
      obtain ⟨slot, hlock, h⟩ := Checked.bind_eq_ok.mp h
      obtain ⟨-, hne, hslot⟩ := lockIfSome_eq_ok hlock
      split at h
      · next hdead =>
          cases h
          refine Or.inr ⟨server, hwaits, by simpa using hne, ?_, rfl, rfl⟩
          intro dest hdest
          rw [hslot] at hdest
          subst hdest
          simpa using hdead
      · cases h
        exact Or.inl ⟨rfl, rfl⟩
  · cases h
    exact Or.inl ⟨rfl, rfl⟩

lemma reap_onlyMemory {index : ℕ} (h : k.reap index proc = .ok k') :
    OnlyMemory { k with processes := Function.update k.processes index none } k' :=
  dropAllocated_onlyMemory h

/-- The processes are where their numbers say. -/
def Slots (k : Kernel) : Prop :=
  ∀ ⦃i proc⦄, k.processes i = some proc → proc.id.asU16 = i

/-- **What inspecting and reaping keep holds after the scan.** -/
theorem scan_rule (I : Kernel → Prop) (hslots : ∀ {k}, I k → k.Slots)
    (hinspect : ∀ {k k' proc server}, I k → k.process? proc.id = some proc →
      proc.state.waitsFor = some (.userspace server) → server ≠ proc.id →
      (∀ dest, k.process? server = some dest → dest.state = .finished) →
      k' = (k.setProcess { proc with state := .finished }).logKill
        { proc with state := .finished } (.waitingOnFinished server) → I k')
    (hreap : ∀ {k k' : Kernel} {i proc}, I k → k.process? proc.id = some proc → i = proc.id.asU16 →
      proc.state = .finished → k.reap i proc = .ok k' → I k')
    {scanStart : ℕ} {offsets : List ℕ} {next : Process} :
    ∀ {k k'}, I k → k.scan scanStart offsets = .ok (k', some next) →
      I k' ∧ k'.process? next.id = some next ∧ next.state.canRun = true := by
  induction offsets with
  | nil =>
      intro k k' _ h
      cases h
  | cons offset rest ih =>
      intro k k' hk h
      simp only [scan] at h
      split at h
      · exact ih hk h
      · next proc hproc =>
          have hid := hslots hk hproc
          have hfound : k.process? proc.id = some proc := by rw [process?, hid, hproc]
          obtain ⟨⟨k₁, proc₁⟩, hinspected, h⟩ := Checked.bind_eq_ok.mp h
          have hkeep : I k₁ ∧ k₁.process? proc₁.id = some proc₁ ∧ proc₁.id = proc.id := by
            rcases inspectCanProgress_cases hinspected with ⟨rfl, rfl⟩ |
              ⟨server, hwaits, hne, hdead, rfl, rfl⟩
            · exact ⟨hk, hfound, rfl⟩
            · refine ⟨hinspect hk hfound hwaits hne hdead rfl, ?_, rfl⟩
              exact (process?_setProcess k _ _).trans (if_pos rfl)
          obtain ⟨hk₁, hproc₁, hsame⟩ := hkeep
          split at h
          · next hrun =>
              cases h
              exact ⟨hk₁, hproc₁, hrun⟩
          · split at h
            · next hfinished =>
                obtain ⟨k₂, hreaped, h⟩ := Checked.bind_eq_ok.mp h
                refine ih (hreap hk₁ hproc₁ ?_ hfinished hreaped) h
                rw [hsame, hid]
            · exact ih hk₁ h

/-- The kernel that returns to a process which was answered. -/
def resumeWith (k : Kernel) (next : Process) (registers : RiscvRegisters) (place : ReturnPlace)
    (answer : Answer) : Kernel :=
  { (k.setProcess { next with registers := registers, state := .runnable }).record
      (.resumed next.id place answer) with registers := registers }

lemma resumeProcess_cases {next : Process} {r : Except UserSyscallError Unit}
    (h : k.resumeProcess next = .ok (k', r)) :
    (next.state = .runnable ∧ r = .ok () ∧
      k' = { k.setUserspaceProcess next with registers := next.registers }) ∨
    (∃ reply resultBuffer, next.state = .readyReply reply resultBuffer ∧
      (r = .error .sliceTooSmall ∧ k' = k.setUserspaceProcess next ∨
      ∃ k₁, (k.setUserspaceProcess next).writeToUser resultBuffer reply = .ok (.ok k₁) ∧
        r = .ok () ∧ k' = k₁.resumeWith next (Function.update next.registers .a0 reply.length)
          (.buffer resultBuffer) (.bytes reply))) ∨
    ∃ ring declaredSize handler length layout virt heap k₁ next',
      next.state = .readyStreamMap ring declaredSize ∧
      (k.setUserspaceProcess next).UsesHeap k₁ ∧ k₁.getHandler ring.localIndex = .ok handler ∧
      k₁.sharedMemorySize handler = .ok length ∧ pageLayout length = .ok layout ∧
      next.heap.alloc layout = .ok (.ok virt, heap) ∧
      k₁.sharedMemoryMap handler virt { next with heap := heap } = .ok next' ∧ r = .ok () ∧
      k' = (k₁.resumeWith next'
        (Function.update (Function.update next'.registers .a0 virt) .a1 declaredSize)
        .streamMap (.ring ring declaredSize)).sfenceVmaAll := by
  simp only [resumeProcess] at h
  split at h
  · next hstate =>
      cases h
      exact Or.inl ⟨hstate, rfl, rfl⟩
  · next reply resultBuffer hstate =>
      obtain ⟨written, hwrite, h⟩ := Checked.bind_eq_ok.mp h
      refine Or.inr (Or.inl ⟨reply, resultBuffer, hstate, ?_⟩)
      cases written with
      | error err =>
          rcases writeToUser_eq_ok hwrite with herror | ⟨_, -, -, herror⟩
          · cases herror
            cases h
            exact Or.inl ⟨rfl, rfl⟩
          · cases herror
      | ok k₁ =>
          cases h
          exact Or.inr ⟨k₁, hwrite, rfl, rfl⟩
  · next ring declaredSize hstate =>
      obtain ⟨handler, hhandler, h⟩ := Checked.bind_eq_ok.mp h
      obtain ⟨length, hlength, h⟩ := Checked.bind_eq_ok.mp h
      obtain ⟨layout, hlayout, h⟩ := Checked.bind_eq_ok.mp h
      obtain ⟨⟨result, heap⟩, halloc, h⟩ := Checked.bind_eq_ok.mp h
      cases result with
      | error e => cases h
      | ok virt =>
          obtain ⟨k₁, hchurn, h⟩ := Checked.bind_eq_ok.mp h
          obtain ⟨next', hmap, h⟩ := Checked.bind_eq_ok.mp h
          cases h
          have huses := churn_usesHeap hchurn
          rw [← huses.getHandler] at hhandler
          rw [← huses.sharedMemorySize] at hlength
          exact Or.inr (Or.inr ⟨ring, declaredSize, handler, length, layout, virt, heap, k₁, next',
            hstate, huses, hhandler, hlength, hlayout, halloc, hmap, rfl, rfl⟩)
  · cases h

lemma scheduleUserspace_cases (h : k.scheduleUserspace = .ok (k', mode)) :
    ∃ k₁ next k₂ r, k.findRunnableProcess = .ok (k₁, some next) ∧
      k₁.resumeProcess next = .ok (k₂, r) ∧
      (r = .ok () ∧ k' = k₂ ∧ mode = .user ∨
      ∃ err proc, r = .error err ∧ k₂.process [] = .ok proc ∧
        k' = k₂.killManual proc (.userError err) ∧ mode = .schedule) := by
  obtain ⟨⟨k₁, found⟩, hfind, h⟩ := Checked.bind_eq_ok.mp h
  cases found with
  | none => cases h
  | some next =>
      obtain ⟨⟨k₂, r⟩, hresume, h⟩ := Checked.bind_eq_ok.mp h
      refine ⟨k₁, next, k₂, r, hfind, hresume, ?_⟩
      cases r with
      | ok u =>
          cases h
          exact Or.inl ⟨rfl, rfl, rfl⟩
      | error err =>
          obtain ⟨proc, hproc, h⟩ := Checked.bind_eq_ok.mp h
          cases h
          exact Or.inr ⟨err, proc, rfl, hproc, rfl, rfl⟩

end Kernel

end Deravel
