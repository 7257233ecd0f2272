import Mathlib.Logic.Relation
import DeravelOs.Kernel.Syscall

/-!
# Traps, the scheduler and runs of the system

`kernel/src/main.rs`, the scheduler of `process.rs` and `set_userspace_process` of `arch.rs`.
Saving and restoring the registers, which is assembly, is taken as faithful: the registers of the
trap context are the registers of the process that runs.

The kernel is not preempted.  A run is therefore a sequence of steps (`Step`): some user code, a
trap with everything the kernel does until it returns to user mode or calls the scheduler, or one
turn of the scheduler.
-/

namespace Deravel

variable (P : Platform)

/-- Whether the hart is in user mode or the kernel in `schedule_userspace`. -/
inductive Mode
  | user
  | schedule
  deriving DecidableEq, Repr

/-- The traps that `on_user_trap_impl` tells apart. -/
inductive Cause
  | userEnvCall
  | supervisorTimer
  | supervisorExternal
  | pageFault (stval : ℕ)
  | other
  deriving DecidableEq, Repr

namespace ProcessState

/-- Whether the scheduler picks a process in this state. -/
def canRun : ProcessState → Bool
  | runnable => true
  | readyReply _ _ => true
  | readyStreamMap _ _ => true
  | _ => false

/-- The actor that a process in this state waits for. -/
def waitsFor : ProcessState → Option Actor
  | waitingForReply server _ => some server
  | waitingForStreamMap server => some server
  | _ => none

end ProcessState

namespace Kernel

/-- `kill_manual!` -/
def killManual (k : Kernel) (proc : Process) (reason : KillReason) : Kernel :=
  (k.logKill proc reason).setProcess { proc with state := .finished }

/-! ## The scheduler -/

/-- `inspect_can_progress`, on a process whose slot is locked. -/
def inspectCanProgress (k : Kernel) (proc : Process) : Checked (Kernel × Process) :=
  match proc.state.waitsFor with
  | some (.userspace server) => do
      let slot ← k.lockIfSome [proc.id] server
      if slot.all fun proc => proc.state = .finished then
        let proc := { proc with state := .finished }
        pure ((k.setProcess proc).logKill proc (.waitingOnFinished server), proc)
      else
        pure (k, proc)
  | _ => pure (k, proc)

/-- `*PROCESSES[index].lock() = None` -/
def reap (k : Kernel) (index : ℕ) (proc : Process) : Checked Kernel :=
  { k with processes := Function.update k.processes index none }.dropAllocated proc.allocated

/-- The loop of `find_runnable_process` over the remaining offsets. -/
def scan (k : Kernel) (scanStart : ℕ) : List ℕ → Checked (Kernel × Option Process)
  | [] => pure (k, none)
  | scanOffset :: rest =>
      let scanIndex := (scanStart + scanOffset) % processCount
      match k.processes scanIndex with
      | none => k.scan scanStart rest
      | some proc => do
          let (k, proc) ← k.inspectCanProgress proc
          if proc.state.canRun then
            pure (k, some proc)
          else if proc.state = .finished then do
            let k ← k.reap scanIndex proc
            k.scan scanStart rest
          else
            k.scan scanStart rest

/-- `find_runnable_process` -/
def findRunnableProcess (k : Kernel) : Checked (Kernel × Option Process) :=
  let scanStart := match k.userPid with
    | some pid => pid.asU16 + 1
    | none => 0
  k.scan scanStart (List.range processCount)

/-- `set_userspace_process`: the new table is in `satp`, and the hart has seen no other one. -/
def setUserspaceProcess (k : Kernel) (proc : Process) : Kernel :=
  { k with userPid := some proc.id, sepc := proc.pc, hart := [proc.pageTable] }

/-- `resume_process`, up to the return to user mode. -/
def resumeProcess (k : Kernel) (next : Process) :
    Checked (Kernel × Except UserSyscallError Unit) := do
  let k := k.setUserspaceProcess next
  match next.state with
  | .runnable => pure ({ k with registers := next.registers }, .ok ())
  | .readyReply reply resultBuffer => do
      match ← k.writeToUser resultBuffer reply with
      | .error err => pure (k, .error err)
      | .ok k =>
          let registers := Function.update next.registers .a0 reply.length
          let k := k.setProcess { next with registers := registers, state := .runnable }
          let k := k.record (.resumed next.id (.buffer resultBuffer) (.bytes reply))
          pure ({ k with registers := registers }, .ok ())
  | .readyStreamMap ring declaredSize => do
      let handler ← k.getHandler ring.localIndex
      let length ← k.sharedMemorySize handler
      let layout ← pageLayout length
      match ← next.heap.alloc layout with
      | (.error _, _) => throw (.unwrap .resumeProcess)
      | (.ok virt, heap) => do
          -- the nodes of the heap, the page tables on the way, the room in the list of mappings
          let k ← k.churn
          let next ← k.sharedMemoryMap handler virt { next with heap := heap }
          let registers := Function.update (Function.update next.registers .a0 virt) .a1 declaredSize
          let k := k.setProcess { next with registers := registers, state := .runnable }
          let k := k.sfenceVmaAll.record (.resumed next.id .streamMap (.ring ring declaredSize))
          pure ({ k with registers := registers }, .ok ())
  | _ => throw (.explicit .resumeProcess)

/-- One turn of `schedule_userspace`. -/
def scheduleUserspace (k : Kernel) : Checked (Kernel × Mode) := do
  match ← k.findRunnableProcess with
  | (_, none) => throw .shutdown
  | (k, some next) => do
      match ← k.resumeProcess next with
      | (k, .ok ()) => pure (k, .user)
      | (k, .error err) => do
          let proc ← k.process []
          pure (k.killManual proc (.userError err), .schedule)

/-! ## Traps -/

/-- The mapping in which a faulting page is missing. -/
def findMapping (table : PageTable) (stval : ℕ) :
    List (AddressRange × ℕ) → Checked (Option (AddressRange × ℕ))
  | [] => pure none
  | vmm :: rest => do
      let missing ← (if vmm.1.start ≤ stval ∧ stval < vmm.1.stop then
          (! ·) <$> table.isMapped stval
        else pure false : Checked Bool)
      if missing then pure (some vmm) else findMapping table stval rest

/-- `handle_page_fault`.  The last `kill!` locks the slot of the process again. -/
def handlePageFault (k : Kernel) (stval : ℕ) : Checked (SyscallResult Unit) := do
  if userStackGuard.start ≤ stval ∧ stval < userStackGuard.stop then do
    let proc ← k.process []
    pure (k.kill proc .stackOverflow)
  else do
    let proc ← k.process []
    match ← findMapping proc.pageTable stval proc.virtualMemoryMappings with
    | none => do
        let proc ← k.process [proc.id]
        pure (k.kill proc (.forbiddenAccess stval))
    | some (range, index) => do
        let pageIndex := (stval - range.start) / pageSize
        let (k, proc) ← k.loadPage index range.start pageIndex proc
        pure ((k.setProcess proc).sfenceVmaAll, .ok ())

/-- Whether a physical address belongs to the ring of an input device. -/
def inRing (k : Kernel) (phys : ℕ) : Bool :=
  [k.devices.keyboardRing, k.devices.mouseRing].any fun ring =>
    physOf ring.ptr ≤ phys ∧ phys < physOf ring.ptr + ring.byteSize

/-- `on_user_trap_impl`.  The interrupt handlers of the devices write to rings only. -/
def onUserTrapImpl (k : Kernel) (cause : Cause) : Checked (SyscallResult Unit) := do
  let userPc := k.sepc
  match cause with
  | .userEnvCall => do
      match ← k.dispatchSyscall P with
      | (k, .ok ()) => do
          let sepc ← usizeAdd .sepc userPc 4
          pure ({ k with sepc := sepc }, .ok ())
      | (k, .error (.userErr err)) => pure (k, .error (.userErr err))
      | (k, .error .yield) => do
          let proc ← k.process []
          let pc ← usizeAdd .sepc userPc 4
          pure (k.setProcess { proc with pc := pc }, .error .yield)
  | .supervisorTimer => pure (k, .ok ())
  | .supervisorExternal => do
      let stores ← k.oracle.interrupt
      let stores := stores.filter fun store => k.inRing store.1
      pure ({ k with memory := storeBytes k.memory stores }, .ok ())
  | .pageFault stval => k.handlePageFault stval
  | .other => throw (.explicit .onUserTrap)

/-- `on_user_trap` -/
def onUserTrap (k : Kernel) (cause : Cause) : Checked (Kernel × Mode) := do
  match ← k.onUserTrapImpl P cause with
  | (k, .ok ()) => pure (k, .user)
  | (k, .error (.userErr err)) => do
      let proc ← k.process []
      pure (k.killManual proc (.userError err), .schedule)
  | (k, .error .yield) => do
      let proc ← k.process []
      pure (k.setProcess { proc with registers := k.registers }, .schedule)

end Kernel

/-! ## Boot -/

/-- A kernel whose heap is set up and that has nothing else yet. -/
def Kernel.bare (memory : ℕ → UInt8) (heap : BuddyAllocator) (devices : Devices)
    (oracle : Oracle) : Kernel where
  processes := fun _ => none
  processesReserved := 0
  memory := memory
  handlers := []
  mappings := []
  heap := heap
  internal := []
  devices := devices
  userPid := none
  registers := fun _ => 0
  sepc := 0
  hart := []
  console := []
  trace := []
  oracle := oracle

/-- The layout of a page. -/
def pageBoxLayout : Layout := ⟨pageSize, pageSize, pageSize_eq_two_pow, by decide⟩

/-- The memory that the drivers share with processes is allocated: the cursor image and the
framebuffer of `VirtioGpu::new`, and the rings of `VirtioInput::new`. -/
def initializeAllPci (k : Kernel) : Checked Kernel := do
  match bytesLayout (64 * 64 * 4), bytesLayout P.framebufferSize with
  | some cursorLayout, some framebufferLayout => do
      let (cursorImage, k) ← k.newPages cursorLayout fun _ => 0
      let (framebuffer, k) ← k.newPages framebufferLayout fun _ => 0
      let (keyboardRing, k) ← k.newPages pageBoxLayout fun _ => 0
      let (mouseRing, k) ← k.newPages pageBoxLayout fun _ => 0
      pure { k with devices := ⟨keyboardRing, mouseRing, cursorImage, framebuffer⟩ }
  | _, _ => throw .capacityOverflow

/-- The processes that `main` starts. -/
def startProcesses (k : Kernel) : Checked Kernel := do
  let (fat, fatExport, k) ← k.reserveProcess
  let (windowing, _, k) ← k.reserveProcess
  let (display, k) ← k.reserveKernelCapability .display
  let (keyboard, k) ← k.reserveKernelCapability .keyboard
  let (mouse, k) ← k.reserveKernelCapability .mouse
  let (imageViewer, k) ← k.reserveKernelCapability (.spawner P.imageViewer)
  let (net, k) ← k.reserveKernelCapability .network
  let (shutdown, k) ← k.reserveKernelCapability .shutdown
  let (terminal, k) ← k.reserveKernelCapability (.spawner P.terminal)
  let (shell, k) ← k.reserveKernelCapability (.spawner P.shell)
  let k ← k.spawn P P.windowing windowing
    [display, keyboard, mouse, fatExport, imageViewer, net, shutdown, terminal, shell]
  let (drive, k) ← k.reserveKernelCapability .drive
  k.spawn P P.fat fat [drive]

/-- `main`, up to the first call of the scheduler. -/
def main (oracle : Oracle) : Checked Kernel := do
  let heap ← BuddyAllocator.boot P.ram P.reserved
  let noMemory : Backing := ⟨0, pageBoxLayout⟩
  let k ← initializeAllPci P
    (.bare P.memory heap ⟨noMemory, noMemory, noMemory, noMemory⟩ oracle)
  startProcesses P k

/-! ## Runs -/

/-- What user code can do between two traps: compute, and store where the hart lets it. -/
structure UserStep (k k' : Kernel) : Prop where
  same : k' = { k with registers := k'.registers, sepc := k'.sepc, memory := k'.memory }
  registers_lt : ∀ r, k'.registers r < usizeRange
  stores : ∀ p, k'.memory p ≠ k.memory p → ∃ table ∈ k.hart, ∃ virt < directMapping.start,
    ∃ flags : PageFlags, table.translate virt = some (p, flags) ∧
      flags.user = true ∧ flags.write = true

/-- The steps of the system, each with what caused it. -/
inductive Step : Kernel × Mode → Option Cause → Kernel × Mode → Prop
  | user {k k' : Kernel} (h : UserStep k k') : Step (k, .user) none (k', .user)
  | trap {k k' : Kernel} {mode : Mode} {cause : Cause} (oracle : Oracle)
      (h : { k with oracle := oracle }.onUserTrap P cause = .ok (k', mode)) :
      Step (k, .user) (some cause) (k', mode)
  | schedule {k k' : Kernel} {mode : Mode} (oracle : Oracle)
      (h : { k with oracle := oracle }.scheduleUserspace = .ok (k', mode)) :
      Step (k, .schedule) none (k', mode)

/-- The states that the system can be in. -/
inductive Reachable : Kernel × Mode → Prop
  | main {k : Kernel} (oracle : Oracle) (h : main P oracle = .ok k) : Reachable (k, .schedule)
  | step {s s' : Kernel × Mode} {cause : Option Cause} (reachable : Reachable s)
      (step : Step P s cause s') : Reachable s'

/-! ## Scripted runs -/

/-- What happens next on a machine: user code loads its registers and stores bytes, it traps, or the
scheduler has its turn. -/
inductive Move
  | user (registers : List (Register × ℕ)) (stores : List (ℕ × UInt8))
  | trap (cause : Cause)
  | schedule

/-- The trap of a move. -/
def Move.cause : Move → Option Cause
  | trap cause => some cause
  | _ => none

/-- A byte that user code stores at an address that the present table lets it write. -/
def Kernel.userStore (k : Kernel) (memory : ℕ → UInt8) (store : ℕ × UInt8) :
    Option (ℕ → UInt8) :=
  match k.hart.head?.bind fun table => table.translate store.1 with
  | some (phys, flags) =>
      if store.1 < directMapping.start ∧ flags.user = true ∧ flags.write = true then
        some (Function.update memory phys store.2)
      else none
  | none => none

/-- The state after a move, if the move can be made and the kernel survives it. -/
def Move.next (oracle : Oracle) : Kernel × Mode → Move → Option (Kernel × Mode)
  | (k, .user), .user registers stores =>
      if registers.all fun entry => entry.2 < usizeRange then do
        let memory ← stores.foldlM k.userStore k.memory
        some ({ k with
          registers := fun r => (registers.lookup r).getD 0
          memory := memory }, .user)
      else none
  | (k, .user), .trap cause => ({ k with oracle := oracle }.onUserTrap P cause).toOption
  | (k, .schedule), .schedule => { k with oracle := oracle }.scheduleUserspace.toOption
  | _, _ => none

/-- The state after `main` and some moves. -/
def play (oracle : Oracle) (moves : List Move) : Option (Kernel × Mode) := do
  let k ← (main P oracle).toOption
  moves.foldlM (Move.next P oracle) (k, .schedule)

variable {P}

lemma Checked.toOption_eq_some {α : Type} {x : Checked α} {a : α} :
    x.toOption = some a ↔ x = .ok a := by
  cases x with
  | error e => simp [Except.toOption]
  | ok b => simp [Except.toOption]

/-- Whether a computation stops with this panic. -/
def Checked.stopsWith {α : Type} (x : Checked α) (e : Panic) : Bool :=
  match x with
  | .ok _ => false
  | .error e' => e' = e

lemma Checked.stopsWith_iff {α : Type} {x : Checked α} {e : Panic} :
    x.stopsWith e = true ↔ x = .error e := by
  cases x with
  | ok a => simp [stopsWith]
  | error e' => simp [stopsWith]

lemma Kernel.userStore_stores {k : Kernel} {memory memory' : ℕ → UInt8} {store : ℕ × UInt8}
    (h : k.userStore memory store = some memory') (p : ℕ) :
    memory' p = memory p ∨ ∃ table ∈ k.hart, ∃ virt < directMapping.start,
      ∃ flags : PageFlags, table.translate virt = some (p, flags) ∧
        flags.user = true ∧ flags.write = true := by
  simp only [userStore] at h
  split at h
  · next phys flags htranslate =>
      obtain ⟨table, htable, htranslate⟩ := Option.bind_eq_some_iff.mp htranslate
      split at h
      · next hallowed =>
          cases h
          by_cases hp : p = phys
          · subst hp
            exact Or.inr ⟨table, List.mem_of_mem_head? htable, store.1, hallowed.1, flags,
              htranslate, hallowed.2⟩
          · exact Or.inl (Function.update_of_ne hp _ _)
      · cases h
  · cases h

lemma Kernel.foldlM_userStore {k : Kernel} {stores : List (ℕ × UInt8)} {memory memory' : ℕ → UInt8}
    (h : stores.foldlM k.userStore memory = some memory') (p : ℕ) :
    memory' p = memory p ∨ ∃ table ∈ k.hart, ∃ virt < directMapping.start,
      ∃ flags : PageFlags, table.translate virt = some (p, flags) ∧
        flags.user = true ∧ flags.write = true := by
  induction stores generalizing memory with
  | nil =>
      cases h
      exact Or.inl rfl
  | cons store rest ih =>
      rw [List.foldlM_cons] at h
      obtain ⟨memory₁, hfirst, h⟩ := Option.bind_eq_some_iff.mp h
      rcases ih h with hsame | hstored
      · rcases userStore_stores hfirst p with hfirst | hstored
        · exact Or.inl (hsame.trans hfirst)
        · exact Or.inr hstored
      · exact Or.inr hstored

/-- A move is a step of the system. -/
lemma Move.next_step {oracle : Oracle} {s s' : Kernel × Mode} {move : Move}
    (h : move.next P oracle s = some s') : Step P s move.cause s' := by
  obtain ⟨k, mode⟩ := s
  cases move with
  | user registers stores =>
      cases mode with
      | user =>
          simp only [next] at h
          split at h
          · next hsmall =>
              obtain ⟨memory, hmemory, h⟩ := Option.bind_eq_some_iff.mp h
              cases h
              refine .user ⟨rfl, fun r => ?_, fun p hp => ?_⟩
              · cases hlookup : registers.lookup r with
                | none => simp [hlookup, usizeRange]
                | some value =>
                    obtain ⟨l₁, l₂, rfl, -⟩ := List.lookup_eq_some_iff.mp hlookup
                    simpa [hlookup] using List.all_eq_true.mp hsmall (r, value) (by simp)
              · exact (Kernel.foldlM_userStore hmemory p).resolve_left hp
          · cases h
      | schedule => cases h
  | trap cause =>
      cases mode with
      | user => exact .trap oracle (Checked.toOption_eq_some.mp h)
      | schedule => cases h
  | schedule =>
      cases mode with
      | user => cases h
      | schedule => exact .schedule oracle (Checked.toOption_eq_some.mp h)

/-- What is played is reachable. -/
theorem play_reachable {oracle : Oracle} {moves : List Move} {s : Kernel × Mode}
    (hplay : play P oracle moves = some s) : Reachable P s := by
  obtain ⟨k, hmain, h⟩ := Option.bind_eq_some_iff.mp hplay
  have hstart : Reachable P (k, .schedule) := .main oracle (Checked.toOption_eq_some.mp hmain)
  clear hplay hmain
  generalize (k, Mode.schedule) = start at h hstart
  induction moves generalizing start with
  | nil =>
      cases h
      exact hstart
  | cons move rest ih =>
      rw [List.foldlM_cons] at h
      obtain ⟨next, hnext, h⟩ := Option.bind_eq_some_iff.mp h
      exact ih next h (.step hstart (Move.next_step hnext))

/-- An image whose file the reader of a small machine takes for an executable without segments. -/
def Elf.small (name : String) (argCount : ℕ) : Elf := ⟨name, argCount, 0xffffffc080300000, []⟩

/-- A machine with 64 MiB of memory and empty images.  Numbers are encoded in one byte. -/
def Platform.small : Platform where
  ram := ⟨0xffffffc080000000, 0xffffffc084000000⟩
  reserved := [⟨0xffffffc080200000, 0xffffffc080600000⟩]
  image := ⟨0xffffffc080200000, 0xffffffc080600000⟩
  capabilityPages := 0xffffffc080400000
  fat := .small "fat_fs" 1
  windowing := .small "windowing" 9
  imageViewer := .small "image_viewer" 2
  terminal := .small "terminal" 1
  shell := .small "shell" 6
  framebufferSize := pageSize
  memory := fun _ => 0
  minimalParse := fun _ => some ⟨true, true, 1, 0, 0, 2, 243, userElf.start, some []⟩
  segmentData := fun bytes segment =>
    if segment.pOffset + segment.pFilesz ≤ bytes.length then
      some ⟨segment.pOffset, segment.pOffset + segment.pFilesz⟩
    else none
  encodeUsize := fun n => [n.toUInt8]
  decodeUsize := fun
    | [] => none
    | byte :: rest => some (byte.toNat, rest)
  decodeArg := fun _ bytes => match bytes with
    | [] => none
    | _ :: rest => some rest
  encodeInputs := fun _ _ => []
  segmentData_eq := fun _ _ => rfl
  ram_direct := by decide
  ram_stop := by decide
  reservations := ⟨by decide, by decide, by simp⟩
  image_reserved := List.mem_singleton_self _
  elf_static := by decide
  elf_aligned := by decide
  capability_static := by decide
  capability_aligned := by decide
  capability_new := fun _ _ => rfl

/-- Nothing happens outside of the kernel. -/
def Oracle.quiet : Oracle where
  churn := []
  turns := 10
  cached := fun _ => 0
  reply := .ok []
  disk := fun _ => .ok []
  interrupt := .ok []

end Deravel
