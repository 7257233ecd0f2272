import DeravelOs.Ipc.System
import DeravelOs.Memory.System

/-!
# Objects behind capabilities

Whatever the processes write to their own capability pages, a capability of the kernel that validates
has a handler.  The page of the kernel has grants only, so that no chain goes through it, and each of
them was stored after its handler; a slot that was never written is a grant to the kernel, which
nobody can claim.

* `MemoryOk.handler_of_chain`: the end of a chain in the page of the kernel.
* `Kernel.KeepsRings`: a ring that waits for its process has a handler as well.
* `Reachable.handler_stored`: no `get_handler` fails.
-/

namespace Deravel

variable {P : Platform} {k k' k'' : Kernel} {proc proc' next : Process} {mode : Mode}
  {cap root : RawCapability} {pages : CapabilityPages} {claimer : ProcessId}
  {F : Set Backing}

/-- Pages that have the kernel's own page where it can be read, and anything elsewhere. -/
def Kernel.SharesPage (P : Platform) (k : Kernel) (pages : CapabilityPages) : Prop :=
  ∀ index v, pages .kernel index = .ok v → v = k.certificate P .kernel index

namespace Kernel

/-! ## Chains that end in the page of the kernel -/

/-- A certificate of the kernel is a grant, and its object is there if a process has it. -/
lemma MemoryOk.kernel_certificate (h : k.MemoryOk P F) (hpages : k.SharesPage P pages)
    {u : CapabilityCertificateUnpacked} (hread : cap.readCertificate pages = .ok (.kernel, u)) :
    ∃ grantee, u = .granted grantee ∧
      (grantee = .kernel ∨ cap.localIndex < k.handlers.length) := by
  obtain ⟨-, v, hv, hunpack⟩ := RawCapability.readCertificate_eq_ok.mp hread
  obtain ⟨grantee, hgranted, hobject⟩ := h.granted cap.localIndex
  rw [hpages _ _ hv, hgranted, CapabilityCertificateValue.unpack_granted] at hunpack
  exact ⟨grantee, (Except.ok.inj hunpack).symm, hobject⟩

/-- A chain of a process does not make the kernel the claimer, so what it ends with in the page of
the kernel has an object. -/
lemma MemoryOk.handler_of_chain (h : k.MemoryOk P F) (hpages : k.SharesPage P pages)
    {actor : Actor} {n : ℕ} {cs : ℕ → RawCapability}
    (hchain : RawCapability.DelegationChain pages actor cap root n cs) (hactor : actor ≠ .kernel)
    (hkernel : root.certifier = .ok .kernel) : root.localIndex < k.handlers.length := by
  induction n generalizing actor cap cs with
  | zero =>
      obtain ⟨a, owner, hread⟩ := hchain.granted
      have ha : a = actor := hchain.received.recipient_eq ⟨owner, hread⟩
      rw [hchain.last] at hread
      have howner := (RawCapability.readCertificate_eq_ok.mp hread).1
      rw [hkernel] at howner
      obtain rfl := Except.ok.inj howner
      obtain ⟨grantee, hgrantee, hobject⟩ := h.kernel_certificate hpages hread
      cases hgrantee
      exact hobject.resolve_left (ha ▸ hactor)
  | succ n ih =>
      obtain ⟨owner, hread, htail⟩ := hchain.tail
      refine ih htail ?_
      rintro rfl
      -- the kernel forwards nothing
      obtain ⟨grantee, hgrantee, -⟩ := h.kernel_certificate hpages hread
      cases hgrantee

lemma getHandler_of_lt {index : ℕ} (h : index < k.handlers.length) :
    ∃ handler, k.getHandler index = .ok handler := by
  refine ⟨k.handlers[index], ?_⟩
  rw [getHandler, List.getElem?_eq_getElem h]
  rfl

/-! ## What `validate` reads -/

/-- The kernel reads its own page through the tables of processes. -/
lemma MemoryOk.sharesPage (h : k.MemoryOk P F) : k.SharesPage P (k.capabilityPages true) := by
  intro index v hv
  obtain ⟨addresses, haddresses, hv⟩ := Checked.bind_eq_ok.mp hv
  cases hv
  rw [certificate]
  congr 2
  have hall := userAddresses_eq_ok.mp haddresses
  have hlength : addresses.length = 8 := by
    rw [← hall.length_eq, List.length_range']
  refine List.ext_getElem (by simp [hlength]) fun i h1 h2 => ?_
  have hi : i < 8 := hlength ▸ h1
  obtain ⟨flags, htranslate, -⟩ := hall.get (by simpa using hi) h1
  simp only [List.get_eq_getElem, List.getElem_range', one_mul] at htranslate
  obtain ⟨-, t, ht, htranslate⟩ := translate_mem htranslate
  have hindex : index.val < 512 := index.isLt
  have hregion : (RawCapability.slot .kernel index).asUsize + i ∈ capabilityRegion.addresses := by
    rw [RawCapability.asUsize_slot]
    simp only [AddressRange.mem_addresses, capabilityRegion, userCapabilities, processCount,
      pageSize, Actor.pageIndex_kernel]
    omega
  obtain ⟨flags', -, hsees⟩ := (h.hart t ht).certificates _ hregion
  rw [htranslate] at hsees
  have hphys := congrArg Prod.fst (Option.some.inj hsees)
  simp only at hphys
  rw [hphys, RawCapability.asUsize_slot, List.getElem_range', Platform.certificateAddress]
  simp only [capabilityRegion, userCapabilities, Actor.pageIndex_kernel]
  omega

/-- What the kernel validates for a process has a handler. -/
lemma MemoryOk.handler_of_validate (h : k.MemoryOk P F)
    (hvalid : k.validate cap claimer = .ok (.ok root)) (hkernel : root.certifier = .ok .kernel) :
    root.localIndex < k.handlers.length := by
  simp only [validate] at hvalid
  split at hvalid
  · next result hrun =>
      subst hvalid
      obtain ⟨n, cs, hchain⟩ := RawCapability.validate_eq_ok.mp ⟨_, hrun⟩
      exact h.handler_of_chain h.sharesPage hchain (by simp) hkernel
  · cases hvalid

/-! ## Rings that wait for their process -/

/-- A process that is given a ring was given it before, or the ring has a handler. -/
structure KeepsRings (k k' : Kernel) : Prop where
  handlers : k.handlers.length ≤ k'.handlers.length
  rings : ∀ i proc' ring size, k'.processes i = some proc' →
    proc'.state = .readyStreamMap ring size →
      (∃ j proc, k.processes j = some proc ∧ proc.state = .readyStreamMap ring size) ∨
        ring.localIndex < k'.handlers.length

namespace KeepsRings

lemma refl (k : Kernel) : k.KeepsRings k :=
  ⟨le_rfl, fun i proc _ _ hproc hstate => Or.inl ⟨i, proc, hproc, hstate⟩⟩

lemma trans (h : k.KeepsRings k') (h' : k'.KeepsRings k'') : k.KeepsRings k'' := by
  refine ⟨h.handlers.trans h'.handlers, fun i proc'' ring size hproc'' hstate'' => ?_⟩
  rcases h'.rings i proc'' ring size hproc'' hstate'' with ⟨j, proc', hproc', hstate'⟩ | hlt
  · rcases h.rings j proc' ring size hproc' hstate' with hbefore | hlt
    · exact Or.inl hbefore
    · exact Or.inr (hlt.trans_le h'.handlers)
  · exact Or.inr hlt

/-- Only the processes and the handlers matter. -/
lemma congr (h : k.KeepsRings k') (hprocesses : k''.processes = k'.processes)
    (hhandlers : k'.handlers.length ≤ k''.handlers.length) : k.KeepsRings k'' := by
  refine h.trans ⟨hhandlers, fun i proc ring size hproc hstate => ?_⟩
  rw [hprocesses] at hproc
  exact Or.inl ⟨i, proc, hproc, hstate⟩

lemma onlyMemory (h : k.KeepsRings k') (honly : k'.OnlyMemory k'') : k.KeepsRings k'' :=
  h.congr honly.processes (by rw [honly.handlers])

/-- The containers of the kernel have no rings. -/
lemma after (h : k'.KeepsRings k'') (huses : k.UsesHeap k') : k.KeepsRings k'' :=
  ((KeepsRings.refl k).onlyMemory huses.onlyMemory).trans h

/-- A process record is written back. -/
lemma setProcess (h : k.KeepsRings k') (proc' : Process)
    (hstate : ∀ ring size, proc'.state = .readyStreamMap ring size →
      (∃ j proc, k'.processes j = some proc ∧ proc.state = .readyStreamMap ring size) ∨
        ring.localIndex < k'.handlers.length) : k.KeepsRings (k'.setProcess proc') := by
  refine h.trans ⟨le_rfl, fun i proc ring size hproc hready => ?_⟩
  rw [setProcess_processes, Function.update_apply] at hproc
  split at hproc
  · cases hproc
    exact hstate ring size hready
  · exact Or.inl ⟨i, proc, hproc, hready⟩

/-- A record in a slot is written back with its state. -/
lemma setSame (h : k.KeepsRings k') {i : ℕ} (hproc : k'.processes i = some proc)
    (hstate : proc'.state = proc.state) : k.KeepsRings (k'.setProcess proc') :=
  h.setProcess proc' fun _ _ hready => Or.inl ⟨i, proc, hproc, hstate ▸ hready⟩

/-- The record of the running process is written back with its state. -/
lemma setRunning (h : k.KeepsRings k') {held : List ProcessId} (hproc : k'.process held = .ok proc)
    (hstate : proc'.state = proc.state) : k.KeepsRings (k'.setProcess proc') := by
  obtain ⟨pid, -, -, -, hslot⟩ := process_eq_ok hproc
  exact h.setSame hslot hstate

lemma kill {α : Type} {reason : KillReason} {r : Except SyscallAction α} (h : k.KeepsRings k')
    (hkill : (k'', r) = k'.kill proc reason) : k.KeepsRings k'' := by
  obtain ⟨rfl, -⟩ := Prod.mk.inj hkill
  have hlog : k.KeepsRings (k'.logKill proc reason) := h.congr rfl le_rfl
  exact hlog.setProcess _ (by simp)

end KeepsRings

lemma callMethod_keepsRings {handler : Handler} {method : ℕ} {args reply : List UInt8}
    {sender : ProcessId} (h : k.callMethod P handler method args sender = .ok (reply, k')) :
    k.KeepsRings k' := by
  rcases callMethod_cases h with rfl | ⟨backing, -, hmemory⟩ | ⟨sectorOffset, size, -, hmemory⟩ |
    ⟨elf, child, caps, k₁, -, -, hmemory, hcreate⟩
  · exact .refl k'
  · refine (KeepsRings.refl k).congr hmemory.processes ?_
    rw [hmemory.handlers]
    simp
  · refine (KeepsRings.refl k).congr hmemory.processes ?_
    rw [hmemory.handlers]
    simp
  · obtain ⟨k₂, proc, hmemory₂, hfresh, -, rfl⟩ := createProcess_frame hcreate
    have hall := hmemory.trans hmemory₂
    have hbefore : k.KeepsRings k₂ :=
      (KeepsRings.refl k).congr hall.processes (by rw [hall.handlers])
    exact hbefore.setProcess proc (by simp [hfresh.state])

lemma sendMessage_keepsRings {dest : Process} {server : ProcessId} {message : Message}
    {state : ProcessState} {place : ReturnPlace} (hstate : ∀ ring size, state ≠ .readyStreamMap ring size)
    (hsend : k.Sendable proc dest server message) :
    k.KeepsRings (k.sendMessage proc dest server state message place) := by
  have hfirst := (KeepsRings.refl k).setProcess { proc with state := state }
    fun ring size hready => absurd hready (hstate ring size)
  have hdest : (k.setProcess { proc with state := state }).process? server = some dest := by
    rw [process?_setProcess, if_neg hsend.ne, hsend.dest]
  have hsecond : k.KeepsRings ((k.setProcess { proc with state := state }).setProcess
      { dest with messages := dest.messages ++ [message] }) := hfirst.setSame hdest rfl
  exact hsecond.congr rfl le_rfl

/-- Both ends of an answer are written back. -/
lemma sendReply_keepsRings {caller : Process} {state : ProcessState} {answer : Answer}
    (hproc : k.process [] = .ok proc) (hstate : ∀ ring size, state = .readyStreamMap ring size →
      ring.localIndex < k.handlers.length) :
    k.KeepsRings (k.sendReply proc caller state answer) := by
  have hfirst : k.KeepsRings (k.setProcess { proc with currentlyServing := none }) :=
    (KeepsRings.refl k).setRunning hproc rfl
  have hsecond := hfirst.setProcess { caller with state := state }
    fun ring size hready => Or.inr (hstate ring size hready)
  exact hsecond.congr rfl le_rfl

/-- A ring that a server answers with has a handler. -/
lemma replyStreamMap_keepsRings {caller : Process} {result : UserSlice}
    {r : Except SyscallAction Unit} (hproc : k.process [] = .ok proc)
    (h : k.replyStreamMap P { proc with currentlyServing := none } caller result = .ok (k', r)) :
    k.KeepsRings k' := by
  obtain ⟨⟨bytes, k₁⟩, hcopy, h⟩ := Checked.bind_eq_ok.mp h
  have huses := copyToKernel_usesHeap hcopy
  rw [← huses.process] at hproc
  refine KeepsRings.after ?_ huses
  obtain ⟨decoded, -, h⟩ := Checked.bind_eq_ok.mp h
  cases decoded with
  | none => exact (KeepsRings.refl k₁).kill (Except.ok.inj h).symm
  | some pair =>
      obtain ⟨stream, declaredSize⟩ := pair
      obtain ⟨validated, -, h⟩ := Checked.bind_eq_ok.mp h
      cases validated with
      | error err => exact (KeepsRings.refl k₁).kill (Except.ok.inj h).symm
      | ok ring =>
          obtain ⟨certifier, -, h⟩ := Checked.bind_eq_ok.mp h
          split at h
          · exact (KeepsRings.refl k₁).kill (Except.ok.inj h).symm
          · obtain ⟨handler, hhandler, h⟩ := Checked.bind_eq_ok.mp h
            obtain ⟨length, -, h⟩ := Checked.bind_eq_ok.mp h
            split at h
            · exact (KeepsRings.refl k₁).kill (Except.ok.inj h).symm
            · obtain ⟨needed, -, h⟩ := Checked.bind_eq_ok.mp h
              split at h
              · exact (KeepsRings.refl k₁).kill (Except.ok.inj h).symm
              · cases h
                refine sendReply_keepsRings hproc ?_
                rintro ring' size heq
                cases heq
                exact (List.getElem?_eq_some_iff.mp (getHandler_eq_ok hhandler)).1

lemma ipcReply_keepsRings {result : UserSlice} {r : Except SyscallAction Unit}
    (h : k.ipcReply P result = .ok (k', r)) : k.KeepsRings k' := by
  obtain ⟨proc, hproc, h⟩ := Checked.bind_eq_ok.mp h
  cases hserving : proc.currentlyServing with
  | none =>
      simp only [hserving] at h
      exact (KeepsRings.refl k).kill (Except.ok.inj h).symm
  | some callerId =>
      simp only [hserving] at h
      obtain ⟨slot, -, h⟩ := Checked.bind_eq_ok.mp h
      cases slot with
      | none => cases h
      | some caller =>
          simp only at h
          split at h
          · split at h
            · exact (KeepsRings.refl k).kill (Except.ok.inj h).symm
            · obtain ⟨⟨reply, k₁⟩, hcopy, h⟩ := Checked.bind_eq_ok.mp h
              cases h
              have huses := copyToKernel_usesHeap hcopy
              rw [← huses.process] at hproc
              exact (sendReply_keepsRings hproc (by simp)).after huses
          · split at h
            · exact (KeepsRings.refl k).kill (Except.ok.inj h).symm
            · exact replyStreamMap_keepsRings hproc h
          · cases h

lemma ipcCall_keepsRings {method : ℕ} {argsBuffer resultBuffer : UserSlice}
    {r : Except SyscallAction ℕ}
    (h : k.ipcCall P cap method argsBuffer resultBuffer = .ok (k', r)) : k.KeepsRings k' := by
  obtain ⟨k₁, proc, root, huses, -, -, hcases⟩ := ipcCall_cases h
  refine KeepsRings.after ?_ huses
  rcases hcases with hkill | ⟨server, dest, message, hsend, -, -, -, rfl, -⟩ |
    ⟨handler, args, sender, reply, k₂, -, -, -, hmethod, ⟨proc', -, hkill⟩ | ⟨hwrite, -⟩⟩
  · exact (KeepsRings.refl k₁).kill hkill
  · exact sendMessage_keepsRings (by simp) hsend
  · exact (callMethod_keepsRings hmethod).kill hkill
  · exact (callMethod_keepsRings hmethod).onlyMemory (writeToUser_onlyMemory hwrite)

lemma ipcReceive_keepsRings {args : UserSlice}
    {r : Except SyscallAction (Option RawCapability × ℕ × ℕ × Option ProcessId)}
    (h : k.ipcReceive args = .ok (k', r)) : k.KeepsRings k' := by
  obtain ⟨proc, hproc, hkill | ⟨rfl, -⟩ | ⟨message, rest, -, -, hkill | ⟨k₁, hwrite, rfl, -⟩⟩⟩ :=
    ipcReceive_cases h
  · exact (KeepsRings.refl k).kill hkill
  · exact .refl k'
  · exact (KeepsRings.refl k).kill hkill
  · have honly := writeToUser_onlyMemory hwrite
    have hproc₁ : k₁.process [] = .ok proc :=
      (process_congr honly.processes honly.userPid []).trans hproc
    have hset : k.KeepsRings (k₁.setProcess { proc with
        messages := rest, currentlyServing := some message.sender }) :=
      ((KeepsRings.refl k).onlyMemory honly).setRunning hproc₁ rfl
    exact hset.congr rfl le_rfl

/-- The address space of the running process has changed. -/
lemma setSpace_keepsRings {k₁ : Kernel} (honly : k.OnlyMemory k₁) (hproc : k₁.process [] = .ok proc)
    (hspace : proc.OnlySpace proc') : k.KeepsRings (k₁.setProcess proc') :=
  ((KeepsRings.refl k).onlyMemory honly).setRunning hproc hspace.state

lemma noRoom_keepsRings {k₁ : Kernel} {pages : Backing} (honly : k.OnlyMemory k₁)
    (hproc : k₁.process [] = .ok proc) (h : NoRoom k₁ k' proc pages) : k.KeepsRings k' := by
  obtain ⟨e, proc', halloc, hdrop⟩ := h
  exact (setSpace_keepsRings honly hproc (Process.alloc_onlySpace halloc)).onlyMemory
    (dropBacking_onlyMemory hdrop)

lemma ipcStream_keepsRings {stream : ℕ} {r : Except SyscallAction (ℕ × ℕ)}
    (h : k.ipcStream cap stream = .ok (k', r)) : k.KeepsRings k' := by
  obtain ⟨k₁, proc, root, huses, hproc, -, hcases⟩ := ipcStream_cases h
  refine KeepsRings.after ?_ huses
  rcases hcases with ⟨server, dest, message, hsend, -, -, -, rfl, -⟩ |
    ⟨handler, ring, layout, heap, -, -, -, ⟨-, rfl, -⟩ | ⟨virt, phys, table, -, -, -, rfl, -⟩⟩
  · exact sendMessage_keepsRings (by simp) hsend
  · exact setSpace_keepsRings (.refl k₁) hproc ⟨_, heap, _, _, rfl⟩
  · have hset : k₁.KeepsRings (k₁.setProcess { proc with heap := heap, pageTable := table }) :=
      setSpace_keepsRings (.refl k₁) hproc ⟨_, _, _, _, rfl⟩
    exact hset.congr rfl le_rfl

lemma alloc_keepsRings {size : ℕ} {r : Except SyscallAction ℕ} (h : k.alloc size = .ok (k', r)) :
    k.KeepsRings k' := by
  rcases alloc_cases h with ⟨-, rfl | ⟨layout, e, herror⟩⟩ |
    ⟨layout, pages, k₁, proc, hpages, ⟨hnone, -⟩ | ⟨virt, proc', halloc, rfl, -⟩⟩
  · exact .refl k'
  · exact (KeepsRings.refl k).onlyMemory (allocPages_onlyMemory herror)
  · exact noRoom_keepsRings hpages.onlyMemory hpages.proc hnone
  · exact (setSpace_keepsRings hpages.onlyMemory hpages.proc
      (Process.alloc_onlySpace halloc)).congr rfl le_rfl

lemma allocShared_keepsRings {size : ℕ} {r : Except SyscallAction (ℕ × RawCapability)}
    (h : k.allocShared P size = .ok (k', r)) : k.KeepsRings k' := by
  obtain ⟨layout, pages, k₁, proc, hpages, ⟨hnone, -⟩ |
    ⟨virt, proc', grantee, cap, halloc, hgrant, -⟩⟩ := allocShared_cases h
  · exact noRoom_keepsRings hpages.onlyMemory hpages.proc hnone
  · have hspace := setSpace_keepsRings hpages.onlyMemory hpages.proc
      (Process.alloc_onlySpace halloc)
    have honly := grantKernelCapability_onlyMemory hgrant
    refine hspace.congr honly.processes ?_
    rw [honly.handlers]
    simp [sfenceVmaAll]

lemma mapShared_keepsRings {r : Except SyscallAction (ℕ × ℕ)}
    (h : k.mapShared cap = .ok (k', r)) : k.KeepsRings k' := by
  obtain ⟨k₁, proc, root, huses, hproc, -, hcases⟩ := mapShared_cases h
  refine KeepsRings.after ?_ huses
  rcases hcases with hkill | ⟨handler, length, padded, layout, heap, -, -, -, -, -, ⟨-, rfl, -⟩ |
    ⟨virt, proc', -, hmap, rfl, -⟩⟩
  · exact (KeepsRings.refl k₁).kill hkill
  · exact setSpace_keepsRings (.refl k₁) hproc ⟨_, heap, _, _, rfl⟩
  · have hspace : proc.OnlySpace proc' :=
      Process.OnlySpace.trans ⟨_, heap, _, _, rfl⟩ (sharedMemoryMap_onlySpace hmap)
    exact (setSpace_keepsRings (.refl k₁) hproc hspace).congr rfl le_rfl

lemma free_keepsRings {ptr : ℕ} {r : Except SyscallAction Unit} (h : k.free ptr = .ok (k', r)) :
    k.KeepsRings k' := by
  obtain ⟨proc, hproc, ⟨-, hkill⟩ | ⟨proc', b, hdealloc, hdrop, -⟩⟩ := free_cases h
  · exact (KeepsRings.refl k).kill hkill
  · exact (setSpace_keepsRings (.refl k) hproc (Process.dealloc_onlySpace hdealloc)).onlyMemory
      (dropBacking_onlyMemory hdrop)

lemma log_keepsRings {message : UserSlice} {level : ℕ} {r : Except SyscallAction Unit}
    (h : k.log message level = .ok (k', r)) : k.KeepsRings k' := by
  obtain ⟨k₁, proc, huses, -, hcases⟩ := log_cases h
  refine KeepsRings.after ?_ huses
  rcases hcases with hkill | hkill | ⟨rfl, -⟩
  · exact (KeepsRings.refl k₁).kill hkill
  · exact (KeepsRings.refl k₁).kill hkill
  · exact .refl k'

/-- **No call hands out a ring without handler.** -/
theorem eachCall_keepsRings : EachCall P k fun k' _ => k.KeepsRings k' where
  registers hk := hk.congr rfl le_rfl
  userErr := .refl k
  yield := .refl k
  exit h := by
    obtain ⟨proc, -, rfl, -⟩ := exit_cases h
    exact (KeepsRings.refl k).setProcess _ (by simp)
  ipcCall := ipcCall_keepsRings
  ipcReceive := ipcReceive_keepsRings
  ipcReply := ipcReply_keepsRings
  ipcStream := ipcStream_keepsRings
  alloc _ := alloc_keepsRings
  allocShared _ := allocShared_keepsRings
  mapShared := mapShared_keepsRings
  free _ _ := free_keepsRings
  log := log_keepsRings

/-! ## Traps and the scheduler -/

lemma handlePageFault_keepsRings (hmemory : k.MemoryOk P F) {stval : ℕ}
    {r : Except SyscallAction Unit} (h : k.handlePageFault stval = .ok (k', r)) :
    k.KeepsRings k' := by
  obtain ⟨proc, hproc, hkill | ⟨proc', hagain⟩ |
    ⟨range, index, k₁, proc', -, -, -, -, hload, rfl, -⟩⟩ := handlePageFault_cases h
  · exact (KeepsRings.refl k).kill hkill
  · exact absurd hagain (hmemory.process_locked hproc)
  · obtain ⟨mapping, contents, layout, page, k₂, k₃, phys, table, -, -, halloc, huses, -, -, rfl,
      rfl⟩ := loadPage_cases hload
    have honly := (allocPages_onlyMemory halloc).trans huses.onlyMemory
    have hproc₃ : k₃.process [] = .ok proc :=
      (process_congr honly.processes honly.userPid []).trans hproc
    have hset : k.KeepsRings (k₃.setProcess { proc with pageTable := table }) :=
      setSpace_keepsRings honly hproc₃ ⟨_, _, _, _, rfl⟩
    exact hset.congr rfl le_rfl

lemma killManual_keepsRings {reason : KillReason} (h : k.KeepsRings k') :
    k.KeepsRings (k'.killManual proc reason) := by
  have hlog : k.KeepsRings (k'.logKill proc reason) := h.congr rfl le_rfl
  exact hlog.setProcess _ (by simp)

theorem onUserTrap_keepsRings (hmemory : k.MemoryOk P F) {cause : Cause}
    (h : k.onUserTrap P cause = .ok (k', mode)) : k.KeepsRings k' := by
  obtain ⟨k₁, r, himpl, hcases⟩ := onUserTrap_cases h
  have h₁ : k.KeepsRings k₁ := by
    rcases onUserTrapImpl_cases himpl with ⟨-, k₂, r₂, hcall, hcases⟩ | ⟨stores, -, rfl, -⟩ |
      ⟨stval, -, hfault⟩
    · have h₂ : k.KeepsRings k₂ := dispatchSyscall_rule eachCall_keepsRings hcall
      rcases hcases with ⟨sepc, -, rfl, -⟩ | ⟨err, -, rfl, -⟩ | ⟨proc, pc, -, hproc, rfl, -⟩
      · exact h₂.congr rfl le_rfl
      · exact h₂
      · exact h₂.setRunning hproc rfl
    · exact (KeepsRings.refl k).congr rfl le_rfl
    · exact handlePageFault_keepsRings hmemory hfault
  rcases hcases with ⟨-, rfl, -⟩ | ⟨proc, hproc, -, ⟨err, -, rfl⟩ | ⟨-, rfl⟩⟩
  · exact h₁
  · exact killManual_keepsRings h₁
  · exact h₁.setRunning hproc rfl

lemma resumeProcess_keepsRings {r : Except UserSyscallError Unit}
    (h : k.resumeProcess next = .ok (k', r)) : k.KeepsRings k' := by
  have h₁ : k.KeepsRings (k.setUserspaceProcess next) := (KeepsRings.refl k).congr rfl le_rfl
  rcases resumeProcess_cases h with ⟨-, -, rfl⟩ |
    ⟨reply, resultBuffer, -, ⟨-, rfl⟩ | ⟨k₁, hwrite, -, rfl⟩⟩ |
    ⟨ring, declaredSize, handler, length, layout, virt, heap, k₁, next', -, huses, -, -, -, -, -, -,
      rfl⟩
  · exact h₁.congr rfl le_rfl
  · exact h₁
  · have hset := (h₁.onlyMemory (writeToUser_onlyMemory hwrite)).setProcess { next with
      registers := Function.update next.registers .a0 reply.length, state := .runnable } (by simp)
    exact hset.congr rfl le_rfl
  · have hset := (h₁.onlyMemory huses.onlyMemory).setProcess { next' with
      registers := Function.update (Function.update next'.registers .a0 virt) .a1 declaredSize
      state := .runnable } (by simp)
    exact hset.congr rfl le_rfl

theorem scheduleUserspace_keepsRings (hslots : k.Slots)
    (h : k.scheduleUserspace = .ok (k', mode)) : k.KeepsRings k' := by
  obtain ⟨k₁, next, k₂, r, hfind, hresume, hcases⟩ := scheduleUserspace_cases h
  obtain ⟨⟨h₁, -⟩, -⟩ := scan_rule (fun k' => k.KeepsRings k' ∧ k'.Slots)
    (fun h => h.2)
    (fun {k₁ k₂ proc server} h _ _ _ _ hk₂ => by
      subst hk₂
      have hset := h.1.setProcess { proc with state := .finished } (by simp)
      exact ⟨hset.congr rfl le_rfl, h.2.setProcess _⟩)
    (fun {k₁ k₂ i proc} h _ _ _ hreap => by
      have honly := reap_onlyMemory hreap
      have hslot : ∀ j proc', k₂.processes j = some proc' → k₁.processes j = some proc' := by
        intro j proc' hproc'
        rw [honly.processes] at hproc'
        simp only [Function.update_apply] at hproc'
        split at hproc'
        · cases hproc'
        · exact hproc'
      refine ⟨h.1.trans ⟨by rw [honly.handlers], fun j proc' _ _ hproc' hstate => ?_⟩, ?_⟩
      · exact Or.inl ⟨j, proc', hslot j proc' hproc', hstate⟩
      · exact fun j proc' hproc' => h.2 (hslot j proc' hproc')) ⟨KeepsRings.refl k, hslots⟩ hfind
  have h₂ := h₁.trans (resumeProcess_keepsRings hresume)
  rcases hcases with ⟨-, rfl, -⟩ | ⟨err, proc, -, hproc, rfl, -⟩
  · exact h₂
  · exact killManual_keepsRings h₂

end Kernel

/-! ## Runs -/

/-- A process that waits for its ring waits for one that has a handler. -/
lemma Reachable.ring_lt {s : Kernel × Mode} (h : Reachable P s) {i : ℕ} {ring : RawCapability}
    {size : ℕ} (hproc : s.1.processes i = some proc)
    (hstate : proc.state = .readyStreamMap ring size) :
    ring.localIndex < s.1.handlers.length := by
  induction h generalizing i proc with
  | @main k oracle hmain =>
      -- nobody has been answered yet
      have hboot := Kernel.main_booting hmain
      have hfound : k.process? proc.id = some proc := by
        rw [Kernel.process?, hboot.slots hproc]
        exact hproc
      rw [(hboot.fresh hfound).state] at hstate
      cases hstate
  | @step s s' cause hreachable hstep ih =>
      have hkeeps : s.1.KeepsRings s'.1 := by
        have hmemory := hreachable.memoryOk
        cases hstep with
        | user huser =>
            rw [huser.same]
            exact (Kernel.KeepsRings.refl _).congr rfl le_rfl
        | trap oracle htrap =>
            have h := Kernel.onUserTrap_keepsRings (hmemory.withOracle oracle) htrap
            exact ⟨h.handlers, h.rings⟩
        | schedule oracle hturn =>
            have h := Kernel.scheduleUserspace_keepsRings (hmemory.withOracle oracle).slots hturn
            exact ⟨h.handlers, h.rings⟩
      rcases hkeeps.rings i proc ring size hproc hstate with ⟨j, proc₀, hproc₀, hstate₀⟩ | hlt
      · exact (ih hproc₀ hstate₀).trans_le hkeeps.handlers
      · exact hlt

/-- **Every kernel capability that validates has a handler.**  In a reachable state this holds for
whatever the processes have on their own pages, for what the kernel itself validates when a process
runs, and for the ring that a process is to be given. -/
theorem Reachable.handler_stored (h : Reachable P (k, mode)) :
    (∀ pages, k.SharesPage P pages → ∀ fuel cap claimer root,
      RawCapability.validate pages fuel cap claimer = some (.ok (.ok root)) →
        root.certifier = .ok .kernel → ∃ handler, k.getHandler root.localIndex = .ok handler) ∧
    (∀ oracle cap claimer root,
      Kernel.validate { k with oracle := oracle } cap claimer = .ok (.ok root) →
        root.certifier = .ok .kernel → ∃ handler, k.getHandler root.localIndex = .ok handler) ∧
    ∀ i proc ring size, k.processes i = some proc → proc.state = .readyStreamMap ring size →
      ∃ handler, k.getHandler ring.localIndex = .ok handler := by
  have hmemory := h.memoryOk
  refine ⟨fun pages hpages fuel cap claimer root hvalid hkernel => ?_,
    fun oracle cap claimer root hvalid hkernel => ?_, fun i proc ring size hproc hstate => ?_⟩
  · obtain ⟨n, cs, hchain⟩ := RawCapability.validate_eq_ok.mp ⟨fuel, hvalid⟩
    exact Kernel.getHandler_of_lt (hmemory.handler_of_chain hpages hchain (by simp) hkernel)
  · exact Kernel.getHandler_of_lt
      ((hmemory.withOracle oracle).handler_of_validate hvalid hkernel)
  · exact Kernel.getHandler_of_lt (h.ring_lt hproc hstate)

set_option maxRecDepth 10000 in
/-- The first process of a small machine was granted the drive. -/
theorem Reachable.handler_stored_drive : ∃ k root handler, Reachable .small (k, .user) ∧
    Kernel.validate { k with oracle := .quiet } ⟨0x2000040, by decide⟩ ⟨1, by decide, by decide⟩ =
      .ok (.ok root) ∧ k.getHandler root.localIndex = .ok handler := by
  have hplayed : (play .small .quiet [.schedule]).any (fun s => s.2 = .user ∧
      (match Kernel.validate { s.1 with oracle := .quiet } ⟨0x2000040, by decide⟩
        ⟨1, by decide, by decide⟩ with
      | .ok (.ok root) => decide (root = ⟨0x2000040, by decide⟩)
      | _ => false) = true) = true := by
    decide +kernel
  obtain ⟨⟨k, mode⟩, hplay, hstate⟩ := (Option.any_eq_true _ _).mp hplayed
  obtain ⟨hmode, hstate⟩ := of_decide_eq_true hstate
  obtain rfl : mode = .user := hmode
  split at hstate
  · next root hvalid =>
      obtain rfl := of_decide_eq_true hstate
      obtain ⟨handler, hhandler⟩ :=
        (play_reachable hplay).handler_stored.2.1 .quiet _ _ _ hvalid (by decide)
      exact ⟨k, _, handler, play_reachable hplay, hvalid, hhandler⟩
  · cases hstate

end Deravel
