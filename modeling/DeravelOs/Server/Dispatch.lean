import DeravelOs.Capability.Certificate
import DeravelOs.Lib.Failure

/-!
# The loop of a server

`kernel-api/src/dispatch.rs` and `capability.rs`.  A process that serves others has objects, and a
capability for each of them: the index of the capability in the page of the process is the index of the
object in `handlers`.  What a method does with its object is up to the server; on the way it may grant
new capabilities and forward others.

* `Slots`, `allocateCertificate`: the certificates that the process has written.
* `Behaviour`: what a method or an observer does, up to its result.
* `Dispatch.runCall`, `Dispatch.runObservables`: the two halves of the loop.
* `Dispatch.run`: the loop, for calls and observed values in any order.
-/

namespace Deravel

/-! ## Certificates -/

/-- `CAPABILITIES_ALLOCATED`, and the page of the process. -/
structure Slots where
  allocated : ℕ
  page : Fin capabilitiesPerPage → CapabilityCertificateValue

/-- `allocate_certificate`, and the `store` that follows each call of it. -/
def allocateCertificate (pid : ProcessId) (slots : Slots) (value : CapabilityCertificateValue) :
    Checked (RawCapability × Slots) :=
  if h : slots.allocated < capabilitiesPerPage then
    let index : Fin capabilitiesPerPage := ⟨slots.allocated, h⟩
    pure (.slot (.userspace pid) index,
      ⟨slots.allocated + 1, Function.update slots.page index value⟩)
  else throw (.assertion .allocateCertificate)

/-- `grant_unhandled` -/
def grantUnhandled (pid : ProcessId) (slots : Slots) (grantee : Actor) :
    Checked (RawCapability × Slots) :=
  allocateCertificate pid slots (.granted grantee)

/-- `forward` -/
def forward (pid : ProcessId) (slots : Slots) (cap : RawCapability) (forwardee : Actor) :
    Checked (RawCapability × Slots) :=
  allocateCertificate pid slots (.forwarded forwardee cap)

/-! ## Methods and observers -/

/-- What a method does: it returns, it panics, or it grants or forwards a capability and goes on with
what it got.  A grant is `grant_to_sender` of a `Ctx` and `grant_to_kernel` of an `OCtx`. -/
inductive Behaviour (Obj α : Type)
  | done (a : α)
  | panic (e : Panic)
  | grant (object : Obj) (next : RawCapability → Behaviour Obj α)
  | forward (cap : RawCapability) (forwardee : Actor) (next : RawCapability → Behaviour Obj α)

/-- `HandlerEntry`; the object stands for the `TypedHandler`. -/
structure HandlerEntry (Obj : Type) where
  localIndex : ℕ
  object : Obj

/-- What happens to capabilities, for the record. -/
inductive Action (Obj : Type)
  | granted (index : ℕ) (object : Obj) (grantee : Actor)
  | forwarded (index : ℕ)
  | called (index : ℕ) (object : Obj) (sender : ProcessId)
  deriving DecidableEq, Repr

/-- What a behaviour works on. -/
structure World (Obj : Type) where
  slots : Slots
  newHandlers : List (HandlerEntry Obj)
  trace : List (Action Obj)

variable {Obj α S V : Type}

/-- A behaviour is carried out; what it grants is granted to `grantee`. -/
def Behaviour.run (pid : ProcessId) (grantee : Actor) :
    Behaviour Obj α → World Obj → Checked (α × World Obj)
  | .done a, world => pure (a, world)
  | .panic e, _ => throw e
  | .grant object next, world => do
      let (cap, slots) ← grantUnhandled pid world.slots grantee
      (next cap).run pid grantee {
        slots := slots
        newHandlers := world.newHandlers ++ [⟨cap.localIndex, object⟩]
        trace := world.trace ++ [.granted cap.localIndex object grantee] }
  | .forward cap forwardee next, world => do
      let (cap, slots) ← Deravel.forward pid world.slots cap forwardee
      (next cap).run pid grantee {
        slots := slots
        newHandlers := world.newHandlers
        trace := world.trace ++ [.forwarded cap.localIndex] }

/-- The implementations of `Handler` and `Observer` for a server.  The interface of a handler is part
of its object. -/
structure ServerImpl (S Obj V : Type) where
  callMethod : S → (method : ℕ) → (args : List UInt8) → Obj → (sender : ProcessId) →
    Behaviour Obj (S × List UInt8)
  observe : S → V → Obj → Behaviour Obj S

/-! ## The loop -/

/-- `Dispatch`, with the certificates of the process. -/
structure Dispatch (S Obj : Type) where
  server : S
  handlers : List (Option Obj)
  observers : List Obj
  slots : Slots
  trace : List (Action Obj)

namespace Dispatch

/-- `new_object` and `observe`, in a process whose export was granted to its parent. -/
def new (server : S) (object : Obj) (observers : List Obj) (exported : CapabilityCertificateValue) :
    Dispatch S Obj where
  server := server
  handlers := [some object]
  observers := observers
  slots := ⟨1, Function.update (fun _ => ⟨0, 0⟩) 0 exported⟩
  trace := []

/-- `resize_with(len, || None)` -/
def resize (handlers : List (Option Obj)) (len : ℕ) : List (Option Obj) :=
  handlers.take len ++ List.replicate (len - handlers.length) none

/-- What both halves of the loop end with: `handlers` grows, and the new ones are put into it. -/
def installHandlers (handlers : List (Option Obj)) (allocated : ℕ)
    (newHandlers : List (HandlerEntry Obj)) : Checked (List (Option Obj)) :=
  newHandlers.foldlM (fun handlers entry =>
    if entry.localIndex < handlers.length then pure (handlers.set entry.localIndex (some entry.object))
    else throw (.indexOutOfBounds .runCall)) (resize handlers allocated)

variable (impl : ServerImpl S Obj V) (pid : ProcessId)

/-- `run_call` -/
def runCall (d : Dispatch S Obj) (cap : RawCapability) (method : ℕ) (args : List UInt8)
    (sender : ProcessId) : Checked (Dispatch S Obj × List UInt8) :=
  match d.handlers[cap.localIndex.val]? with
  | none => throw (.indexOutOfBounds .runCall)
  | some none => throw (.explicit .runCall)
  | some (some object) => do
      let ((server, result), world) ←
        (impl.callMethod d.server method args object sender).run pid (.userspace sender)
          ⟨d.slots, [], d.trace ++ [.called cap.localIndex object sender]⟩
      let handlers ← installHandlers d.handlers world.slots.allocated world.newHandlers
      pure ({ d with
        server := server
        handlers := handlers
        slots := world.slots
        trace := world.trace }, result)

/-- `observe` of a `RawObserver`, for the values that it polls. -/
def observeAll (server : S) (world : World Obj) (object : Obj) (values : List V) :
    Checked (S × World Obj) :=
  values.foldlM (fun (server, world) value => (impl.observe server value object).run pid .kernel world)
    (server, world)

/-- `run_observables`.  The numbers of the observers say which values each of them polls. -/
def runObservables (d : Dispatch S Obj) (polled : ℕ → List V) : Checked (Dispatch S Obj) := do
  let (server, world) ← d.observers.zipIdx.foldlM
    (fun (server, world) (object, i) => observeAll impl pid server world object (polled i))
    (d.server, ⟨d.slots, [], d.trace⟩)
  let handlers ← installHandlers d.handlers world.slots.allocated world.newHandlers
  pure { d with
    server := server
    handlers := handlers
    slots := world.slots
    trace := world.trace }

/-- What the loop meets: a message that is received, or no message and the values that are polled
then. -/
inductive Event (V : Type)
  | receive (cap : RawCapability) (method : ℕ) (args : List UInt8) (sender : ProcessId)
  | idle (polled : ℕ → List V)

/-- One turn of the loop. -/
def turn (d : Dispatch S Obj) : Event V → Checked (Dispatch S Obj)
  | .receive cap method args sender => do
      let (d, _) ← d.runCall impl pid cap method args sender
      pure d
  | .idle polled => d.runObservables impl pid polled

/-- `run` -/
def run (d : Dispatch S Obj) (events : List (Event V)) : Checked (Dispatch S Obj) :=
  events.foldlM (turn impl pid) d

end Dispatch

end Deravel
