import DeravelOs.Lib.Failure
import DeravelOs.Kernel.Frames

/-!
# Where the kernel can panic

For each function the places of the source at which a call of it can panic (`PanicsAt`).  A panic
without a place, such as a trap in kernel mode, is always possible; only a `Mutex` that is locked
already never is, except where a process is looked up while others are held (`NoDeadlock`).

What a driver does on its own comes from the oracle.
-/

namespace Deravel

open Failure

variable {P : Platform} {k k' : Kernel} {proc proc' : Process} {pid : ProcessId}
  {S T : List Site}

/-! ## Places -/

/-- Where a panic happens, if it has a place of its own. -/
def Panic.place : Panic → Option Site
  | assertion site => some site
  | overflow site => some site
  | unwrap site => some site
  | unreachable site => some site
  | stackOverflow site => some site
  | unimplemented site => some site
  | explicit site => some site
  | indexOutOfBounds site => some site
  | deadlock => none
  | kernelTrap => none
  | capacityOverflow => none
  | outOfMemory => none
  | diverges => none
  | shutdown => none

/-- Whether a panic happens at one of these places, or at none, and is neither a deadlock nor the end
of the machine. -/
def Panic.within (S : List Site) (e : Panic) : Bool :=
  e ∉ [.deadlock, .shutdown] && e.place.all fun site => site ∈ S

/-- Whatever panic there is happens at one of these places, or at none, and is neither a deadlock nor
the end of the machine. -/
abbrev PanicsAt (S : List Site) {α : Type} (x : Checked α) : Prop :=
  OnlyFails x fun e => e.within S = true

lemma Panic.within_mono (hsub : S ⊆ T) {e : Panic} (h : e.within S = true) :
    e.within T = true := by
  simp only [within, Bool.and_eq_true, Option.all_eq_true, decide_eq_true_eq] at h ⊢
  exact ⟨h.1, fun site hsite => hsub (h.2 site hsite)⟩

lemma PanicsAt.mono {α : Type} {x : Checked α} (h : PanicsAt S x) (hsub : S ⊆ T) :
    PanicsAt T x := OnlyFails.mono h fun _ => Panic.within_mono hsub

lemma ensure_panics {p : Prop} [Decidable p] {e : Panic} (he : e.within S = true) :
    PanicsAt S (ensure p e) := .ite (fun _ => .pure) fun _ => .throw he

lemma usizeAdd_panics {site : Site} {a b : ℕ} (hsite : site ∈ S) :
    PanicsAt S (usizeAdd site a b) := by
  refine .ite (fun _ => .pure) fun _ => .throw ?_
  simpa [Panic.within, Panic.place] using hsite

lemma usizeSub_panics {site : Site} {a b : ℕ} (hsite : site ∈ S) :
    PanicsAt S (usizeSub site a b) := by
  refine .ite (fun _ => .pure) fun _ => .throw ?_
  simpa [Panic.within, Panic.place] using hsite

/-! ## Allocators -/

lemma Node.new_panics {order size : ℕ} : PanicsAt [.nodeNew] (Node.new order size) := by
  induction order generalizing size with
  | zero =>
      rw [Node.new]
      exact .ite (fun _ => .pure) fun _ => .ite (fun _ => .pure) fun _ => .throw rfl
  | succ n ih =>
      rw [Node.new]
      refine .ite (fun _ => .pure) fun _ => .ite (fun _ => .pure) fun _ => ?_
      exact (ensure_panics rfl).bind fun _ _ => ih.bind fun _ _ => ih.bind fun _ _ => .pure

lemma Node.alloc_panics {reqSize order : ℕ} {node : Node} :
    PanicsAt [.nodeAlloc] (node.alloc reqSize order) := by
  induction order generalizing node with
  | zero =>
      rw [Node.alloc]
      refine .ite (fun _ => .pure) fun _ => .ite (fun _ => ?_) fun _ => .throw rfl
      exact (ensure_panics rfl).bind fun _ _ => .pure
  | succ n ih =>
      rw [Node.alloc]
      refine .ite (fun _ => .pure) fun _ => .ite (fun _ => ?_) fun _ => ?_
      · exact (ensure_panics rfl).bind fun _ _ => .pure
      · refine .ite (fun _ => ?_) fun _ => ?_
        · refine (ensure_panics rfl).bind fun _ _ => ih.bind fun result _ => ?_
          obtain ⟨e | ptr, left⟩ := result
          · exact .pure
          · exact .pure
        · refine (ensure_panics rfl).bind fun _ _ => ih.bind fun result _ => ?_
          obtain ⟨e | ptr, right⟩ := result
          · exact .pure
          · exact .pure

lemma Node.dealloc_panics {reqSize order ptr : ℕ} {node : Node} :
    PanicsAt [.nodeDealloc] (node.dealloc reqSize order ptr) := by
  induction order generalizing ptr node with
  | zero =>
      unfold Node.dealloc
      refine .ite (fun _ => ?_) fun _ => ?_
      · exact (ensure_panics rfl).bind fun _ _ => (ensure_panics rfl).bind fun _ _ => .pure
      · cases node with
        | bare m a => exact .throw rfl
        | split m a left right => exact .throw rfl
  | succ n ih =>
      unfold Node.dealloc
      refine .ite (fun _ => ?_) fun _ => ?_
      · exact (ensure_panics rfl).bind fun _ _ => (ensure_panics rfl).bind fun _ _ => .pure
      · cases node with
        | bare m a => exact .throw rfl
        | split m a left right =>
            exact .ite (fun _ => ih.bind fun _ _ => .pure) fun _ => ih.bind fun _ _ => .pure

namespace BuddyAllocator

variable {self : BuddyAllocator} {range : AddressRange} {layout : Layout} {ptr : ℕ}

lemma new_panics : PanicsAt [.buddyNew, .nodeNew] (new range) := by
  refine (usizeSub_panics (by simp)).bind fun _ _ => (ensure_panics rfl).bind fun _ _ => ?_
  exact (PanicsAt.mono Node.new_panics (by simp)).bind fun _ _ => .pure

lemma alloc_panics : PanicsAt [.buddyAlloc, .nodeAlloc] (self.alloc layout) := by
  refine (PanicsAt.mono Node.alloc_panics (by simp)).bind fun result _ => ?_
  obtain ⟨e | unoffsetPtr, root⟩ := result
  · exact .pure
  · refine (usizeAdd_panics (by simp)).bind fun _ _ => (ensure_panics rfl).bind fun _ _ => ?_
    exact (usizeAdd_panics (by simp)).bind fun _ _ => (ensure_panics rfl).bind fun _ _ => .pure

lemma dealloc_panics : PanicsAt [.buddyDealloc, .nodeDealloc] (self.dealloc ptr layout) := by
  refine (usizeSub_panics (by simp)).bind fun _ _ => ?_
  exact (PanicsAt.mono Node.dealloc_panics (by simp)).bind fun _ _ => .pure

end BuddyAllocator

/-! ## Page tables -/

namespace PageTable

variable {table : PageTable} {virt phys size level : ℕ} {flags : PageFlags}

lemma rangeBody_panics {child : NextLevel} {leaf : PageTable → (virt phys : ℕ) → Checked PageTable}
    (hchild : ∀ table virt phys size, PanicsAt S (child table virt phys size))
    (hleaf : ∀ table virt phys, PanicsAt S (leaf table virt phys)) :
    PanicsAt S (rangeBody level child leaf table virt phys size) := by
  refine (OnlyFails.ite (fun _ => hchild _ _ _ _) fun _ => .pure).bind fun _ _ => ?_
  refine (OnlyFails.ite (fun _ => ?_) fun _ => ?_).bind fun _ _ => ?_
  · exact .foldlM fun _ _ _ => hchild _ _ _ _
  · exact .foldlM fun _ _ _ => hleaf _ _ _
  · exact .ite (fun _ => hchild _ _ _ _) fun _ => .pure

/-- The places of `map`. -/
def mapSites : List Site := [.tableMap, .mapImpl, .mapLeaf, .mapIndirect]

lemma mapImpl_panics : PanicsAt mapSites (mapImpl flags level table virt phys size) := by
  have hleaf : ∀ level table virt phys, PanicsAt mapSites (mapLeaf table virt phys flags level) :=
    fun _ _ _ _ => (ensure_panics rfl).bind fun _ _ => .pure
  have hindirect : ∀ level (table : PageTable) virt, PanicsAt mapSites
      (table.mapIndirect virt level) := by
    intro level table virt
    simp only [mapIndirect]
    split
    · exact .pure
    · exact .pure
    · exact .throw rfl
  induction level generalizing table virt phys size with
  | zero =>
      refine rangeBody_panics (fun table virt phys size => ?_) (hleaf 0)
      exact (hindirect _ _ _).bind fun _ _ => OnlyFails.bind (.throw rfl) fun _ _ => .pure
  | succ level ih =>
      refine rangeBody_panics (fun table virt phys size => ?_) (hleaf (level + 1))
      exact (hindirect _ _ _).bind fun _ _ => ih.bind fun _ _ => .pure

lemma checkRange_panics {site : Site} (hsite : site ∈ S) :
    PanicsAt S (checkRange site virt phys size) := by
  have hassert : Panic.within S (.assertion site) = true := by
    simpa [Panic.within, Panic.place] using hsite
  refine (ensure_panics hassert).bind fun _ _ => (ensure_panics hassert).bind fun _ _ => ?_
  refine (usizeAdd_panics hsite).bind fun _ _ => (ensure_panics hassert).bind fun _ _ => ?_
  refine (ensure_panics hassert).bind fun _ _ => (ensure_panics hassert).bind fun _ _ => ?_
  refine (usizeAdd_panics hsite).bind fun _ _ => (ensure_panics hassert).bind fun _ _ => ?_
  exact ensure_panics hassert

lemma map_panics : PanicsAt mapSites (table.map virt phys size flags) :=
  (checkRange_panics (by simp [mapSites])).bind fun _ _ => mapImpl_panics

end PageTable

/-! ## Memory -/

lemma virtToPhys_panics {virt : ℕ} : PanicsAt [.virtToPhys] (virtToPhys virt) := by
  refine (ensure_panics rfl).bind fun _ _ => (ensure_panics rfl).bind fun _ _ => ?_
  exact usizeSub_panics (by simp)

lemma nextMultipleOfPage_panics {size : ℕ} :
    PanicsAt [.nextMultipleOf] (nextMultipleOfPage size) :=
  (ensure_panics rfl).bind fun _ _ => .pure

lemma pageLayout_panics {size : ℕ} : PanicsAt [.layout] (pageLayout size) := by
  simp only [pageLayout]
  split
  · exact .pure
  · exact .throw rfl

lemma pageGranular_panics {layout : Layout} : PanicsAt [.pageGranular] (pageGranular layout) := by
  simp only [pageGranular]
  split
  · exact .pure
  · exact .throw rfl

namespace Kernel

/-- The places of the kernel heap. -/
def heapSites : List Site := [.buddyAlloc, .nodeAlloc, .buddyDealloc, .nodeDealloc, .pageGranular]

lemma heapOp_panics {op : HeapOp} : PanicsAt heapSites (k.heapOp op) := by
  cases op with
  | alloc layout =>
      refine (PanicsAt.mono BuddyAllocator.alloc_panics (by simp [heapSites])).bind fun result _ => ?_
      obtain ⟨e | ptr, heap⟩ := result
      · exact .throw rfl
      · exact .pure
  | dealloc index =>
      simp only [heapOp]
      split
      · exact (PanicsAt.mono BuddyAllocator.dealloc_panics (by simp [heapSites])).bind
          fun _ _ => .pure
      · exact .pure

lemma churn_panics : PanicsAt heapSites k.churn := by
  simp only [churn]
  split
  · exact .pure
  · exact .foldlM fun _ _ _ => heapOp_panics

lemma allocPages_panics {layout : Layout} {contents : ℕ → UInt8} :
    PanicsAt heapSites (k.allocPages layout contents) := by
  refine .ite (fun _ => .pure) fun _ => ?_
  refine churn_panics.bind fun k _ => ?_
  refine (PanicsAt.mono pageGranular_panics (by simp [heapSites])).bind fun _ _ => ?_
  refine (PanicsAt.mono BuddyAllocator.alloc_panics (by simp [heapSites])).bind fun result _ => ?_
  obtain ⟨e | ptr, heap⟩ := result
  · exact .pure
  · exact .pure

lemma newPages_panics {layout : Layout} {contents : ℕ → UInt8} :
    PanicsAt heapSites (k.newPages layout contents) := by
  refine allocPages_panics.bind fun result _ => ?_
  obtain ⟨e | backing, k⟩ := result
  · exact .throw rfl
  · exact .pure

/-- User memory that cannot be reached is a trap in kernel mode. -/
lemma userAddresses_panics {allowed : PageFlags → Bool} {ptr len : ℕ} :
    PanicsAt [] (k.userAddresses allowed ptr len) := by
  refine .mapM fun virt _ => ?_
  split
  · exact .ite (fun _ => .pure) fun _ => .throw rfl
  · exact .throw rfl

lemma copyToKernel_panics {slice : UserSlice} : PanicsAt heapSites (k.copyToKernel slice) := by
  refine OnlyFails.bind (?_ : PanicsAt heapSites (k.withCapacity slice.len)) fun k _ => ?_
  · simp only [withCapacity]
    split
    · exact .throw rfl
    · exact .ite (fun _ => .pure) fun _ => heapOp_panics
  · have hread : PanicsAt [] (k.readUser slice) := userAddresses_panics.bind fun _ _ => .pure
    exact (PanicsAt.mono hread (List.nil_subset _)).bind fun _ _ => .pure

lemma writeToUser_panics {slice : UserSlice} {data : List UInt8} :
    PanicsAt [] (k.writeToUser slice data) :=
  .ite (fun _ => .pure) fun _ => userAddresses_panics.bind fun _ _ => .pure

end Kernel

/-! ## Capabilities -/

/-- The places of `certifier` and `unpack`. -/
def capabilitySites : List Site := [.certifier, .processIdNew, .certificateUnpack]

lemma ProcessId.new_panics {id : UInt16} : PanicsAt [.processIdNew] (ProcessId.new id) := by
  simp only [ProcessId.new]
  split
  · split
    · exact .pure
    · exact .throw rfl
  · exact .throw rfl

namespace RawCapability

variable {c : RawCapability} {pages : CapabilityPages}

lemma certifier_panics : PanicsAt capabilitySites c.certifier := by
  refine (usizeSub_panics (by simp [capabilitySites])).bind fun _ _ => ?_
  refine .ite (fun _ => .pure) fun _ => ?_
  exact (PanicsAt.mono ProcessId.new_panics (by simp [capabilitySites])).bind fun _ _ => .pure

lemma unpack_panics {v : CapabilityCertificateValue} : PanicsAt capabilitySites v.unpack := by
  have hrecipient : PanicsAt capabilitySites
      (CapabilityCertificateValue.unpackRecipient v.grantee) := by
    refine .ite (fun _ => .pure) fun _ => ?_
    exact (PanicsAt.mono ProcessId.new_panics (by simp [capabilitySites])).bind fun _ _ => .pure
  refine hrecipient.bind fun _ _ => .ite (fun _ => .pure) fun _ => ?_
  cases RawCapability.tryFrom v.payload.toNat with
  | ok inner => exact .pure
  | error e => exact .throw rfl

/-- Pages that trap where they cannot be read. -/
lemma readCertificate_panics (hpages : ∀ actor i, PanicsAt capabilitySites (pages actor i)) :
    PanicsAt capabilitySites (c.readCertificate pages) :=
  certifier_panics.bind fun _ _ => (hpages _ _).bind fun _ _ => unpack_panics.bind fun _ _ => .pure

lemma validate_panics {fuel : ℕ} {claimer : ProcessId}
    {result : Checked (Except CapabilityError RawCapability)}
    (hpages : ∀ actor i, PanicsAt capabilitySites (pages actor i))
    (h : c.validate pages fuel claimer = some result) : PanicsAt capabilitySites result := by
  obtain ⟨⟨d, actor⟩, -, hdone⟩ := Loop.run_eq_some h
  intro e he
  subst he
  simp only [validateTurn] at hdone
  split at hdone
  · next e' hread =>
      cases hdone
      exact readCertificate_panics hpages hread
  · split at hdone
    · cases hdone
    · cases hdone
  · split at hdone
    · cases hdone
    · cases hdone

lemma fmt_panics {fuel : ℕ} {err : CapabilityError} {result : Checked CapabilityErrorText}
    (hpages : ∀ actor i, PanicsAt capabilitySites (pages actor i))
    (h : err.fmt pages fuel = some result) : PanicsAt capabilitySites result := by
  obtain ⟨⟨d, actor, hops⟩, -, hdone⟩ := Loop.run_eq_some h
  intro e he
  subst he
  simp only [fmtTurn] at hdone
  split at hdone
  · next e' hread =>
      cases hdone
      exact readCertificate_panics hpages hread
  · cases hdone
  · split at hdone
    · cases hdone
    · split at hdone
      · next e' hcertifier =>
          cases hdone
          exact certifier_panics hcertifier
      · cases hdone

lemma new_panics {actor : Actor} {localIndex : ℕ} :
    PanicsAt [.rawCapabilityNew] (RawCapability.new actor localIndex) := by
  simp only [RawCapability.new]
  split
  · exact .pure
  · exact .throw rfl

end RawCapability

namespace Kernel

lemma capabilityPages_panics {sum : Bool} {actor : Actor} {i : Fin capabilitiesPerPage} :
    PanicsAt capabilitySites (k.capabilityPages sum actor i) := by
  refine .ite (fun _ => ?_) fun _ => .throw rfl
  exact (PanicsAt.mono userAddresses_panics (by simp)).bind fun _ _ => .pure

lemma validate_panics {cap : RawCapability} {claimer : ProcessId} :
    PanicsAt capabilitySites (k.validate cap claimer) := by
  simp only [validate]
  split
  · next result h => exact RawCapability.validate_panics (fun _ _ => capabilityPages_panics) h
  · exact .throw rfl

lemma killRefused_panics {α : Type} {err : CapabilityError} :
    PanicsAt capabilitySites (k.killRefused proc err : Checked (SyscallResult α)) := by
  refine OnlyFails.bind ?_ fun _ _ => .pure
  simp only [formatCapabilityError]
  split
  · next result h => exact RawCapability.fmt_panics (fun _ _ => capabilityPages_panics) h
  · exact .throw rfl

lemma storeCertificate_panics {cap : RawCapability} {value : CapabilityCertificateValue} :
    PanicsAt capabilitySites (k.storeCertificate P cap value) :=
  (RawCapability.certifier_panics.bind fun _ _ => .pure).bind fun _ _ => .pure

/-! ## Handlers -/

lemma reserveKernelCapability_panics {handler : Handler} :
    PanicsAt [.handlers, .rawCapabilityNew] (k.reserveKernelCapability handler) := by
  refine (ensure_panics rfl).bind fun _ _ => ?_
  exact (PanicsAt.mono RawCapability.new_panics (by simp)).bind fun _ _ => .pure

/-- The places of `grant_kernel_capability`. -/
def grantSites : List Site := .handlers :: .rawCapabilityNew :: capabilitySites

lemma grantKernelCapability_panics {grantee : ProcessId} {handler : Handler} :
    PanicsAt grantSites (k.grantKernelCapability P grantee handler) := by
  refine (PanicsAt.mono reserveKernelCapability_panics (by simp [grantSites])).bind fun _ _ => ?_
  exact (PanicsAt.mono storeCertificate_panics (by simp [grantSites])).bind fun _ _ => .pure

lemma getHandler_panics {localIndex : ℕ} : PanicsAt [.handlers] (k.getHandler localIndex) := by
  simp only [getHandler]
  split
  · exact .pure
  · exact .throw rfl

lemma getMapping_panics {index : ℕ} : PanicsAt [.virtualMemory] (k.getMapping index) := by
  simp only [getMapping]
  split
  · exact .pure
  · exact .throw rfl

lemma mapStream_panics {handler : Handler} {stream : ℕ} :
    PanicsAt [.mapStream] (k.mapStream handler stream) := by
  simp only [mapStream]
  split
  · exact .pure
  · exact .pure
  · exact .throw rfl

lemma sharedMemorySize_panics {handler : Handler} :
    PanicsAt [.virtualMemory, .sharedMemory] (k.sharedMemorySize handler) := by
  simp only [sharedMemorySize]
  split
  · exact .pure
  · exact (PanicsAt.mono getMapping_panics (by simp)).bind fun _ _ => .pure
  · exact .throw rfl

/-! ## Processes -/

lemma pid_panics : PanicsAt [.userPid] k.pid := by
  simp only [Kernel.pid]
  split
  · exact .pure
  · exact .throw rfl

lemma lockIfSome_panics {held : List ProcessId} (hheld : pid ∉ held) :
    PanicsAt [.getProcess] (k.lockIfSome held pid) := by
  refine (ensure_panics rfl).bind fun _ _ => ?_
  rw [ensure_pos hheld]
  exact .pure

/-- The places of `UserStoredCtx::process`. -/
def processSites : List Site := [.getProcess, .userPid, .userProcess]

lemma process_panics : PanicsAt processSites (k.process []) := by
  refine (PanicsAt.mono pid_panics (by simp [processSites])).bind fun pid _ => ?_
  refine (PanicsAt.mono (lockIfSome_panics List.not_mem_nil) (by simp [processSites])).bind
    fun slot _ => ?_
  cases slot with
  | none => exact .throw rfl
  | some proc => exact .pure

/-! ## Replies -/

lemma decodeStreamReply_panics {bytes : List UInt8} :
    PanicsAt [.ipcReplyStream] (decodeStreamReply P bytes) := by
  simp only [decodeStreamReply]
  split
  · exact .pure
  · split
    · exact .throw rfl
    · split
      · exact .pure
      · exact .pure

/-- The places of the second half of `ipc_reply`. -/
def replyStreamSites : List Site :=
  [.ipcReplyStream, .handlers, .virtualMemory, .sharedMemory] ++ heapSites ++ capabilitySites

lemma replyStreamMap_panics {caller : Process} {result : UserSlice} :
    PanicsAt replyStreamSites (k.replyStreamMap P proc caller result) := by
  refine (PanicsAt.mono copyToKernel_panics (by decide)).bind fun bytes _ => ?_
  refine (PanicsAt.mono decodeStreamReply_panics (by simp [replyStreamSites])).bind
    fun decoded _ => ?_
  cases decoded with
  | none => exact .pure
  | some pair =>
      refine (PanicsAt.mono validate_panics (List.subset_append_right _ _)).bind fun validated _ => ?_
      cases validated with
      | error err => exact .pure
      | ok ring =>
          refine (PanicsAt.mono RawCapability.certifier_panics (List.subset_append_right _ _)).bind
            fun certifier _ => ?_
          refine .ite (fun _ => .pure) fun _ => ?_
          refine (PanicsAt.mono getHandler_panics (by decide)).bind fun handler _ => ?_
          refine (PanicsAt.mono sharedMemorySize_panics (by decide)).bind fun length _ => ?_
          refine .ite (fun _ => .pure) fun _ => ?_
          refine (usizeAdd_panics (by decide)).bind fun needed _ => ?_
          exact .ite (fun _ => .pure) fun _ => .pure

end Kernel

/-! ## Locks -/

/-- No `Mutex` is locked that is locked already. -/
abbrev NoDeadlock {α : Type} (x : Checked α) : Prop := OnlyFails x fun e => e ≠ .deadlock

lemma PanicsAt.noDeadlock {α : Type} {x : Checked α} (h : PanicsAt S x) : NoDeadlock x := by
  refine OnlyFails.mono h fun e he => ?_
  rintro rfl
  simp [Panic.within] at he

lemma ensure_noDeadlock {p : Prop} [Decidable p] {e : Panic} (he : e ≠ .deadlock) :
    NoDeadlock (ensure p e) := .ite (fun _ => .pure) fun _ => .throw he

lemma usizeAdd_noDeadlock {site : Site} {a b : ℕ} : NoDeadlock (usizeAdd site a b) :=
  (usizeAdd_panics (List.mem_singleton_self site)).noDeadlock

lemma Process.allocAt_noDeadlock {virt : ℕ} {backing : Backing} {flags : PageFlags} :
    NoDeadlock (proc.allocAt virt backing flags) := by
  refine virtToPhys_panics.noDeadlock.bind fun phys _ => ?_
  exact PageTable.map_panics.noDeadlock.bind fun _ _ => .pure

lemma loadSegment_noDeadlock {elf : Elf} {segment : ProgramHeader} {loading : Kernel × Process} :
    NoDeadlock (loadSegment P elf loading segment) := by
  obtain ⟨k, proc⟩ := loading
  refine .ite (fun _ => .pure) fun _ => ?_
  refine (ensure_noDeadlock (by simp)).bind fun _ _ => ?_
  refine (ensure_noDeadlock (by simp)).bind fun _ _ => ?_
  refine (ensure_noDeadlock (by simp)).bind fun _ _ => ?_
  refine (ensure_noDeadlock (by simp)).bind fun _ _ => ?_
  refine usizeAdd_noDeadlock.bind fun _ _ => ?_
  refine (ensure_noDeadlock (by simp)).bind fun _ _ => ?_
  refine (ensure_noDeadlock (by simp)).bind fun _ _ => ?_
  split
  · exact .throw (by simp)
  · have hflags : NoDeadlock (pagingFlags segment) :=
      (ensure_noDeadlock (by simp)).bind fun _ _ =>
        (ensure_noDeadlock (by simp)).bind fun _ _ => .pure
    refine hflags.bind fun flags _ => .ite (fun _ => ?_) fun _ => ?_
    · refine nextMultipleOfPage_panics.noDeadlock.bind fun size _ => ?_
      split
      · exact .throw (by simp)
      · refine Kernel.newPages_panics.noDeadlock.bind fun _ _ => ?_
        refine (ensure_noDeadlock (by simp)).bind fun _ _ => ?_
        exact Process.allocAt_noDeadlock.bind fun _ _ => .pure
    · refine (ensure_noDeadlock (by simp)).bind fun _ _ => ?_
      refine OnlyFails.bind ((ensure_noDeadlock (by simp)).bind fun _ _ => .pure) fun _ _ => ?_
      refine (ensure_noDeadlock (by simp)).bind fun _ _ => ?_
      refine virtToPhys_panics.noDeadlock.bind fun _ _ => ?_
      exact PageTable.map_panics.noDeadlock.bind fun _ _ => .pure

lemma loadElf_noDeadlock {elf : Elf} : NoDeadlock (loadElf P k elf proc) := by
  simp only [loadElf]
  split
  · exact .throw (by simp)
  · iterate 7 refine (ensure_noDeadlock (by simp)).bind fun _ _ => ?_
    split
    · exact .throw (by simp)
    · refine OnlyFails.bind (.foldlM fun _ _ _ => loadSegment_noDeadlock) fun _ _ => .pure

lemma mapCapabilityMemory_noDeadlock {table : PageTable} :
    NoDeadlock (mapCapabilityMemory P table pid) := by
  refine virtToPhys_panics.noDeadlock.bind fun _ _ => ?_
  refine (usizeSub_panics (List.mem_singleton_self _)).noDeadlock.bind fun _ _ => ?_
  refine (usizeSub_panics (List.mem_singleton_self _)).noDeadlock.bind fun _ _ => ?_
  refine PageTable.map_panics.noDeadlock.bind fun _ _ => ?_
  refine PageTable.map_panics.noDeadlock.bind fun _ _ => ?_
  exact PageTable.map_panics.noDeadlock

lemma createProcess_noDeadlock {elf : Elf} {caps : List RawCapability} :
    NoDeadlock (createProcess P k elf pid caps) := by
  refine BuddyAllocator.new_panics.noDeadlock.bind fun _ _ => ?_
  refine OnlyFails.bind (PageTable.map_panics.noDeadlock) fun _ _ => ?_
  refine loadElf_noDeadlock.bind fun _ _ => ?_
  refine mapCapabilityMemory_noDeadlock.bind fun _ _ => ?_
  refine OnlyFails.bind (?_ : NoDeadlock (mapInputsMemory P _ _ _ _)) fun _ _ => ?_
  · refine (ensure_noDeadlock (by simp)).bind fun _ _ => ?_
    refine pageLayout_panics.noDeadlock.bind fun _ _ => ?_
    refine Kernel.newPages_panics.noDeadlock.bind fun _ _ => ?_
    exact Process.allocAt_noDeadlock.bind fun _ _ => .pure
  · refine OnlyFails.bind (?_ : NoDeadlock (mapUserStack _ _)) fun _ _ => ?_
    · simp only [mapUserStack]
      split
      · exact .throw (by simp)
      · refine Kernel.newPages_panics.noDeadlock.bind fun _ _ => ?_
        exact Process.allocAt_noDeadlock.bind fun _ _ => .pure
    · refine Kernel.churn_panics.noDeadlock.bind fun _ _ => ?_
      exact (ensure_noDeadlock (by simp)).bind fun _ _ => .pure

namespace Kernel

lemma decodeCapabilities_noDeadlock {count : ℕ} {bytes : List UInt8} :
    NoDeadlock (decodeCapabilities P count bytes) := by
  induction count generalizing bytes with
  | zero => exact .pure
  | succ count ih =>
      simp only [decodeCapabilities]
      split
      · exact .throw (by simp)
      · split
        · exact .throw (by simp)
        · exact ih.bind fun _ _ => .pure

lemma handOver_noDeadlock {sender child : ProcessId} {cap : RawCapability} :
    NoDeadlock (k.handOver P sender child cap) := by
  refine RawCapability.certifier_panics.noDeadlock.bind fun _ _ => ?_
  refine (ensure_noDeadlock (by simp)).bind fun _ _ => ?_
  refine OnlyFails.bind ?_ fun before _ => OnlyFails.bind ?_ fun after _ =>
    storeCertificate_panics.noDeadlock
  · refine OnlyFails.bind ?_ fun _ _ => .pure
    exact RawCapability.certifier_panics.noDeadlock.bind fun _ _ => .pure
  · refine RawCapability.unpack_panics.noDeadlock.bind fun u _ => ?_
    cases u with
    | granted grantee => exact .pure
    | forwarded forwardee inner => exact .pure

lemma spawnerCallMethod_noDeadlock {elf : Elf} {args : List UInt8} {sender : ProcessId} :
    NoDeadlock (k.spawnerCallMethod P elf args sender) := by
  refine OnlyFails.bind ?_ fun _ _ => ?_
  · refine ProcessId.new_panics.noDeadlock.bind fun _ _ => ?_
    exact RawCapability.new_panics.noDeadlock.bind fun _ _ => .pure
  · refine storeCertificate_panics.noDeadlock.bind fun _ _ => ?_
    refine decodeCapabilities_noDeadlock.bind fun _ _ => ?_
    refine OnlyFails.bind (.foldlM fun _ _ _ => handOver_noDeadlock) fun _ _ => ?_
    exact createProcess_noDeadlock.bind fun _ _ => .pure

lemma decodeArgs_noDeadlock {types : List ArgType} {bytes : List UInt8} :
    NoDeadlock (decodeArgs P types bytes) := by
  induction types generalizing bytes with
  | nil => exact .pure
  | cons type types ih =>
      simp only [decodeArgs]
      split
      · exact .throw (by simp)
      · exact ih

/-- A method of a handler locks no process; a driver's own work is not followed. -/
lemma callMethod_noDeadlock {handler : Handler} {method : ℕ} {args : List UInt8}
    {sender : ProcessId} (hreply : k.oracle.reply ≠ .error .deadlock) :
    NoDeadlock (k.callMethod P handler method args sender) := by
  have hdriver : ∀ methods, NoDeadlock (k.driverMethod P methods method args) := by
    intro methods
    simp only [driverMethod]
    split
    · exact .throw (by simp)
    · refine decodeArgs_noDeadlock.bind fun _ _ => OnlyFails.bind (fun e he => ?_) fun _ _ => .pure
      rintro rfl
      exact hreply he
  have hgrant : ∀ backing, NoDeadlock (k.grantSharedMemory P backing sender) := fun _ =>
    grantKernelCapability_panics.noDeadlock.bind fun _ _ => .pure
  cases handler with
  | display => exact .ite (fun _ => hgrant _) fun _ => .ite (fun _ => hgrant _) fun _ => hdriver _
  | keyboard => exact hdriver _
  | mouse => exact hdriver _
  | drive =>
      refine .ite (fun _ => ?_) fun _ => hdriver _
      simp only [readMapped]
      split
      · exact .throw (by simp)
      · split
        · exact .throw (by simp)
        · refine (ensure_noDeadlock (by simp)).bind fun _ _ => ?_
          refine (ensure_noDeadlock (by simp)).bind fun _ _ => ?_
          refine (ensure_noDeadlock (by simp)).bind fun _ _ => ?_
          exact grantKernelCapability_panics.noDeadlock.bind fun _ _ => .pure
  | network => exact hdriver _
  | shutdown => exact .ite (fun _ => .throw (by simp)) fun _ => .throw (by simp)
  | spawner elf => exact spawnerCallMethod_noDeadlock
  | sharedMemory backing => exact .throw (by simp)
  | mapping index => exact .throw (by simp)

end Kernel

end Deravel
