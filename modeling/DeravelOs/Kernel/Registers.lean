import DeravelOs.Kernel.Dispatch

/-!
# Calls in registers

`dispatch_syscall` reads a call from the registers, makes it, and writes its results to `a0`, `a1`,
.. when there are any.  A `Syscall` is what it has read.

* `dispatchSyscall_eq`: the dispatcher is these three steps.
* `dispatchSyscall_cases`: what becomes of the registers.
-/

namespace Deravel

variable {P : Platform} {k k' : Kernel} {proc : Process} {pid : ProcessId}

/-- A system call with its arguments. -/
inductive Syscall
  | exit
  | ipcCall (cap : RawCapability) (method : ℕ) (args result : UserSlice)
  | ipcReceive (args : UserSlice)
  | ipcReply (result : UserSlice)
  | ipcStream (cap : RawCapability) (stream : ℕ)
  | alloc (size : ℕ)
  | allocShared (size : ℕ)
  | mapShared (cap : RawCapability)
  | free (ptr : ℕ)
  | yield
  | log (message : UserSlice) (level : ℕ)
  deriving DecidableEq, Repr

namespace Syscall

/-- A slice in two registers. -/
def sliceArg (ptr len : ℕ) : Except UserSyscallError UserSlice :=
  (fun ptr => ⟨ptr, len⟩) <$> Kernel.checkPointer ptr

/-- The call that the registers ask for. -/
def read (a : RiscvRegisters) : Except UserSyscallError Syscall :=
  match a .a6 with
  | 0 => .ok .exit
  | 1 => do
      let cap ← Kernel.capabilityArg (a .a0)
      let args ← sliceArg (a .a2) (a .a3)
      let result ← sliceArg (a .a4) (a .a5)
      .ok (.ipcCall cap (a .a1) args result)
  | 2 => do
      let args ← sliceArg (a .a0) (a .a1)
      .ok (.ipcReceive args)
  | 3 => do
      let result ← sliceArg (a .a0) (a .a1)
      .ok (.ipcReply result)
  | 4 => do
      let cap ← Kernel.capabilityArg (a .a0)
      .ok (.ipcStream cap (a .a1))
  | 5 => .ok (.alloc (a .a0))
  | 6 => .ok (.allocShared (a .a0))
  | 7 => do
      let cap ← Kernel.capabilityArg (a .a0)
      .ok (.mapShared cap)
  | 8 => do
      let ptr ← Kernel.checkPointer (a .a0)
      .ok (.free ptr)
  | 9 => .ok .yield
  | 10 => do
      let message ← sliceArg (a .a0) (a .a1)
      .ok (.log message (a .a2))
  | _ => .error .invalidSyscallNumber

/-- How many registers the results of a call take. -/
def resultCount : Syscall → ℕ
  | exit => 0
  | ipcCall _ _ _ _ => 1
  | ipcReceive _ => 4
  | ipcReply _ => 0
  | ipcStream _ _ => 2
  | alloc _ => 1
  | allocShared _ => 2
  | mapShared _ => 2
  | free _ => 0
  | yield => 0
  | log _ _ => 0

/-- What a call leaves behind, with its results as they are written to registers. -/
def answering {α : Type} (results : α → List ℕ) : SyscallResult α → SyscallResult (List ℕ) :=
  fun left => (left.1, results <$> left.2)

variable (P) in
/-- A call that has been read. -/
def perform (k : Kernel) : Syscall → Checked (SyscallResult (List ℕ))
  | exit => answering Empty.elim <$> k.exit
  | ipcCall cap method args result =>
      answering (fun len => [len]) <$> k.ipcCall P cap method args result
  | ipcReceive args =>
      answering (fun (cap, method, len, sender) =>
        [Kernel.capabilityReg cap, method, len, Kernel.processIdReg sender]) <$> k.ipcReceive args
  | ipcReply result => answering (fun _ => []) <$> k.ipcReply P result
  | ipcStream cap stream => answering (fun (virt, len) => [virt, len]) <$> k.ipcStream cap stream
  | alloc size => answering (fun virt => [virt]) <$> k.alloc size
  | allocShared size =>
      answering (fun (virt, cap) => [virt, cap.asUsize]) <$> k.allocShared P size
  | mapShared cap => answering (fun (virt, len) => [virt, len]) <$> k.mapShared cap
  | free ptr => answering (fun _ => []) <$> k.free ptr
  | yield => answering (fun _ => []) <$> k.yield
  | log message level => answering (fun _ => []) <$> k.log message level

end Syscall

namespace Kernel

lemma returning_answering {α : Type} (results : α → List ℕ) (call : Checked (SyscallResult α)) :
    returning results <$> call = returning id <$> (Syscall.answering results <$> call) := by
  cases call with
  | error e => rfl
  | ok left =>
      obtain ⟨k, result⟩ := left
      cases result with
      | ok a => rfl
      | error action => rfl

/-- The dispatcher reads a call, makes it and writes its results. -/
theorem dispatchSyscall_eq : k.dispatchSyscall P =
    match Syscall.read k.registers with
    | .ok call => returning id <$> call.perform P k
    | .error err => pure (k, .error (.userErr err)) := by
  rw [dispatchSyscall, Syscall.read]
  simp only [withArg, withSlice, Syscall.sliceArg]
  generalize k.registers .a6 = number
  match number with
  | 0 => exact returning_answering _ _
  | 1 =>
      cases capabilityArg (k.registers .a0) with
      | error err => rfl
      | ok cap =>
          cases checkPointer (k.registers .a2) with
          | error err => rfl
          | ok args =>
              cases checkPointer (k.registers .a4) with
              | error err => rfl
              | ok result => exact returning_answering _ _
  | 2 =>
      cases checkPointer (k.registers .a0) with
      | error err => rfl
      | ok args => exact returning_answering _ _
  | 3 =>
      cases checkPointer (k.registers .a0) with
      | error err => rfl
      | ok result => exact returning_answering _ _
  | 4 =>
      cases capabilityArg (k.registers .a0) with
      | error err => rfl
      | ok cap => exact returning_answering _ _
  | 5 => exact returning_answering _ _
  | 6 => exact returning_answering _ _
  | 7 =>
      cases capabilityArg (k.registers .a0) with
      | error err => rfl
      | ok cap => exact returning_answering _ _
  | 8 =>
      cases checkPointer (k.registers .a0) with
      | error err => rfl
      | ok ptr => exact returning_answering _ _
  | 9 => exact returning_answering _ _
  | 10 =>
      cases checkPointer (k.registers .a0) with
      | error err => rfl
      | ok message => exact returning_answering _ _
  | n + 11 => rfl

lemma answering_eq_ok {α : Type} {results : α → List ℕ} {call : Checked (SyscallResult α)}
    {r : Except SyscallAction (List ℕ)}
    (h : Syscall.answering results <$> call = .ok (k', r)) :
    ∃ r', call = .ok (k', r') ∧ r = results <$> r' := by
  cases call with
  | error e => cases h
  | ok left =>
      cases h
      exact ⟨left.2, rfl, rfl⟩

/-- What becomes of the registers: a call that returns writes its results, one after the other. -/
lemma dispatchSyscall_cases {r : Except SyscallAction Unit}
    (h : k.dispatchSyscall P = .ok (k', r)) :
    (∃ err, Syscall.read k.registers = .error err ∧ k' = k ∧ r = .error (.userErr err)) ∨
    ∃ call k₁ r₁, Syscall.read k.registers = .ok call ∧ call.perform P k = .ok (k₁, r₁) ∧
      ((∃ results, r₁ = .ok results ∧ r = .ok () ∧
        k' = { k₁ with registers := writeResults k₁.registers results }) ∨
      ∃ action, r₁ = .error action ∧ r = .error action ∧ k' = k₁) := by
  rw [dispatchSyscall_eq] at h
  cases hread : Syscall.read k.registers with
  | error err =>
      rw [hread] at h
      cases h
      exact Or.inl ⟨err, rfl, rfl, rfl⟩
  | ok call =>
      rw [hread] at h
      refine Or.inr ⟨call, ?_⟩
      cases hcall : call.perform P k with
      | error e =>
          simp only [hcall] at h
          cases h
      | ok left =>
          obtain ⟨k₁, r₁⟩ := left
          simp only [hcall] at h
          cases r₁ with
          | ok results =>
              cases h
              exact ⟨k₁, _, rfl, rfl, Or.inl ⟨results, rfl, rfl, rfl⟩⟩
          | error action =>
              cases h
              exact ⟨_, _, rfl, rfl, Or.inr ⟨action, rfl, rfl, rfl⟩⟩

end Kernel

end Deravel
