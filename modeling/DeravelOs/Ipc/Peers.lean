import DeravelOs.Kernel.Turns
import DeravelOs.Lib.RendezvousHistory

/-!
# IPC as a rendezvous

The processes of the kernel as the participants of `Rendezvous`: their numbers are the names, the
`Message`s are the messages, a `ReturnPlace` says where an answer goes.

* `Kernel.ipc`: the kernel as a state of the rendezvous.
* `Kernel.Ready`: what the kernel keeps in order besides: every process is in its slot, nobody waits
  for the kernel, and a queue holds messages with capabilities of its owner only.
-/

namespace Deravel

variable {P : Platform} {k k' : Kernel} {proc proc' dest : Process} {pid : ProcessId}

/-! ## The abstraction -/

/-- What a process is doing, for others.  Nobody waits for the kernel. -/
def ProcessState.status : ProcessState → Rendezvous.Status ProcessId ReturnPlace Answer
  | runnable => .idle
  | finished => .done
  | waitingForReply (.userspace server) resultBuffer => .waiting server (.buffer resultBuffer)
  | waitingForStreamMap (.userspace server) => .waiting server .streamMap
  | waitingForReply .kernel _ => .idle
  | waitingForStreamMap .kernel => .idle
  | readyReply reply resultBuffer => .answered (.buffer resultBuffer) (.bytes reply)
  | readyStreamMap ring declaredSize => .answered .streamMap (.ring ring declaredSize)

/-- A process as others see it. -/
def Process.peer (proc : Process) : Rendezvous.Peer ProcessId Message ReturnPlace Answer where
  status := proc.state.status
  queue := proc.messages.map fun message => (message.sender, message)
  serving := proc.currentlyServing

/-- An event between processes as an event of the rendezvous. -/
def IpcEvent.event : IpcEvent → Rendezvous.Event ProcessId Message ReturnPlace Answer
  | sent server message place => .sent message.sender server place message
  | received server message => .taken message.sender server message
  | replied server caller answer => .answered caller server answer
  | resumed caller place answer => .resumed caller place answer

/-- The kernel as a state of the rendezvous. -/
def Kernel.ipc (k : Kernel) : Rendezvous.State ProcessId Message ReturnPlace Answer where
  peer pid := (k.process? pid).map Process.peer
  used := {pid | pid.asU16 ≤ k.processesReserved}
  history := k.trace.map IpcEvent.event

lemma ProcessState.status_eq_waiting {state : ProcessState} {server : ProcessId}
    {place : ReturnPlace} : state.status = .waiting server place ↔
      (∃ buffer, state = .waitingForReply (.userspace server) buffer ∧ place = .buffer buffer) ∨
      state = .waitingForStreamMap (.userspace server) ∧ place = .streamMap := by
  cases state with
  | waitingForReply actor buffer =>
      cases actor with
      | userspace pid =>
          simp only [status, waitingForReply.injEq, Actor.userspace.injEq, reduceCtorEq, false_and,
            or_false, Rendezvous.Status.waiting.injEq]
          constructor
          · rintro ⟨rfl, rfl⟩
            exact ⟨buffer, ⟨rfl, rfl⟩, rfl⟩
          · rintro ⟨buffer', ⟨rfl, rfl⟩, rfl⟩
            exact ⟨rfl, rfl⟩
      | kernel => simp [status]
  | waitingForStreamMap actor =>
      cases actor with
      | userspace pid => simp [status, eq_comm]
      | kernel => simp [status]
  | runnable => simp [status]
  | finished => simp [status]
  | readyReply reply buffer => simp [status]
  | readyStreamMap ring declaredSize => simp [status]

lemma ProcessState.status_eq_done {state : ProcessState} :
    state.status = .done ↔ state = .finished := by
  cases state with
  | waitingForReply actor buffer => cases actor <;> simp [status]
  | waitingForStreamMap actor => cases actor <;> simp [status]
  | runnable => simp [status]
  | finished => simp [status]
  | readyReply reply buffer => simp [status]
  | readyStreamMap ring declaredSize => simp [status]

lemma ProcessState.status_of_waitsFor {state : ProcessState} {server : ProcessId}
    (h : state.waitsFor = some (.userspace server)) : ∃ place, state.status = .waiting server place := by
  cases state with
  | waitingForReply actor buffer =>
      cases h
      exact ⟨_, rfl⟩
  | waitingForStreamMap actor =>
      cases h
      exact ⟨_, rfl⟩
  | runnable => cases h
  | finished => cases h
  | readyReply reply buffer => cases h
  | readyStreamMap ring declaredSize => cases h

/-! ## What is kept in order -/

/-- The messages of a process were sent to it with capabilities that it certifies. -/
def Process.Certified (proc : Process) : Prop :=
  ∀ message ∈ proc.messages, message.cap.certifier = .ok (.userspace proc.id)

namespace Kernel

/-- The processes are in their slots, nobody waits for the kernel, and messages are where their
capabilities say. -/
structure Ready (k : Kernel) : Prop where
  slots : k.Slots
  waits : ∀ {pid proc}, k.process? pid = some proc → proc.state.waitsFor ≠ some .kernel
  certified : ∀ {pid proc}, k.process? pid = some proc → proc.Certified
  reserved : k.processesReserved ≤ maxProcesses

lemma Slots.id (h : k.Slots) (hproc : k.process? pid = some proc) : proc.id = pid :=
  ProcessId.ext (h hproc)

lemma Ready.id (h : k.Ready) (hproc : k.process? pid = some proc) : proc.id = pid :=
  h.slots.id hproc

lemma Slots.setProcess (h : k.Slots) (proc : Process) : (k.setProcess proc).Slots := by
  intro i proc' hproc'
  rw [setProcess_processes, Function.update_apply] at hproc'
  split at hproc'
  · next heq =>
      cases hproc'
      exact heq.symm
  · exact h hproc'

lemma Slots.of_processes (h : k.Slots) (hsame : k'.processes = k.processes) : k'.Slots := by
  intro i proc hproc
  rw [hsame] at hproc
  exact h hproc

lemma Slots.remove (h : k.Slots) (i : ℕ) :
    Slots { k with processes := Function.update k.processes i none } := by
  intro j proc hproc
  change Function.update k.processes i none j = some proc at hproc
  rw [Function.update_apply] at hproc
  split at hproc
  · cases hproc
  · exact h hproc

/-- A process may be put into its slot when it waits for nobody but processes. -/
lemma Ready.setProcess (h : k.Ready) (hwaits : proc.state.waitsFor ≠ some .kernel)
    (hcertified : proc.Certified) : (k.setProcess proc).Ready where
  slots := h.slots.setProcess proc
  waits hproc' := by
    rw [process?_setProcess] at hproc'
    split at hproc'
    · cases hproc'
      exact hwaits
    · exact h.waits hproc'
  certified hproc' := by
    rw [process?_setProcess] at hproc'
    split at hproc'
    · cases hproc'
      exact hcertified
    · exact h.certified hproc'
  reserved := h.reserved

/-- Only the processes and their number matter. -/
lemma Ready.congr (h : k.Ready) (hprocesses : k'.processes = k.processes)
    (hreserved : k'.processesReserved = k.processesReserved) : k'.Ready where
  slots := h.slots.of_processes hprocesses
  waits hproc := h.waits (show k.processes _ = some _ by rw [← hprocesses]; exact hproc)
  certified hproc := h.certified (show k.processes _ = some _ by rw [← hprocesses]; exact hproc)
  reserved := hreserved ▸ h.reserved

/-! ## Changes of the kernel, seen from the rendezvous -/

lemma ipc_peer (hproc : k.process? pid = some proc) : k.ipc.peer pid = some proc.peer := by
  simp [ipc, hproc]

lemma exists_of_ipc_peer {p : Rendezvous.Peer ProcessId Message ReturnPlace Answer}
    (h : k.ipc.peer pid = some p) : ∃ proc, k.process? pid = some proc ∧ p = proc.peer := by
  obtain ⟨proc, hproc, rfl⟩ := Option.map_eq_some_iff.mp h
  exact ⟨proc, hproc, rfl⟩

lemma ipc_setProcess (k : Kernel) (proc : Process) :
    (k.setProcess proc).ipc = k.ipc.put proc.id proc.peer := by
  simp only [ipc, Rendezvous.State.put, Rendezvous.State.mk.injEq]
  refine ⟨funext fun pid => ?_, rfl, rfl⟩
  rw [process?_setProcess, Function.update_apply]
  split <;> rfl

lemma ipc_record (k : Kernel) (event : IpcEvent) :
    (k.record event).ipc = k.ipc.note event.event := by
  simp only [ipc, record, Rendezvous.State.note, List.map_append, List.map_cons, List.map_nil]
  rfl

/-- What the rendezvous does not see. -/
lemma ipc_congr (hprocesses : k'.processes = k.processes)
    (hreserved : k'.processesReserved = k.processesReserved) (htrace : k'.trace = k.trace) :
    k'.ipc = k.ipc := by
  simp only [ipc, process?, hprocesses, hreserved, htrace]

lemma OnlyMemory.ipc (h : k.OnlyMemory k') : k'.ipc = k.ipc :=
  ipc_congr h.processes h.processesReserved h.trace

lemma OnlyMemory.ready (h : k.OnlyMemory k') (hk : k.Ready) : k'.Ready :=
  hk.congr h.processes h.processesReserved

lemma OnlyMemory.process? (h : k.OnlyMemory k') (pid : ProcessId) :
    k'.process? pid = k.process? pid := by
  rw [Kernel.process?, Kernel.process?, h.processes]

/-- Putting a process back as others knew it changes nothing for them. -/
lemma ipc_setProcess_same (hproc : k.process? proc'.id = some proc) (hpeer : proc'.peer = proc.peer) :
    (k.setProcess proc').ipc = k.ipc := by
  rw [ipc_setProcess, hpeer, Rendezvous.State.put, ← ipc_peer hproc, Function.update_eq_self]

end Kernel

lemma Process.OnlySpace.peer (h : proc.OnlySpace proc') : proc'.peer = proc.peer := by
  obtain ⟨_, _, _, _, rfl⟩ := h
  rfl

lemma Process.OnlySpace.certified (h : proc.OnlySpace proc') (hproc : proc.Certified) :
    proc'.Certified := by
  obtain ⟨_, _, _, _, rfl⟩ := h
  exact hproc

lemma Process.Fresh.peer (h : Process.Fresh pid proc) : proc.peer = .new := by
  rw [Process.peer, h.state, h.messages, h.currentlyServing]
  rfl

end Deravel
