import Mathlib.Data.List.Count
import DeravelOs.Kernel.Panics
import DeravelOs.Ipc.System

/-!
# Who waits for whom

What the rendezvous says of two processes of the kernel: a caller that waits, and the queue and the
client of the callee, are three views of one link.

* `Reachable.rendezvous`: the views agree in every reachable state, and `ipc_reply` can rely on it.
-/

namespace Deravel

open Failure

variable {P : Platform} {k k' : Kernel} {proc caller : Process} {mode : Mode} {a b : ProcessId}

/-! ## The queue and the client of a process -/

namespace Process

/-- How many messages of `a` are in the queue. -/
def queued (proc : Process) (a : ProcessId) : ℕ := proc.messages.countP fun m => m.sender = a

/-- There is one message of `a`, and `a` is not being served. -/
def HoldsMessageOf (proc : Process) (a : ProcessId) : Prop :=
  proc.queued a = 1 ∧ proc.currentlyServing ≠ some a

/-- `a` is being served, and there is no other message of `a`. -/
def ServesOnly (proc : Process) (a : ProcessId) : Prop :=
  proc.currentlyServing = some a ∧ proc.queued a = 0

lemma pending_peer (proc : Process) :
    proc.peer.pending = proc.currentlyServing.toList ++ proc.messages.map Message.sender := by
  simp [Rendezvous.Peer.pending, peer, Function.comp_def]

lemma queued_eq_count (proc : Process) (a : ProcessId) :
    proc.queued a = (proc.messages.map Message.sender).count a := by
  simp [queued, List.count, List.countP_map, Function.comp_def, beq_eq_decide]

/-- Whoever is pending once is in the queue or being served, and not both. -/
lemma mem_pending_iff (hnodup : proc.peer.pending.Nodup) :
    a ∈ proc.peer.pending ↔ Xor (proc.HoldsMessageOf a) (proc.ServesOnly a) := by
  have hcount : proc.queued a = 0 ∨ proc.queued a = 1 := by
    rw [pending_peer] at hnodup
    have := List.nodup_iff_count_le_one.mp (List.nodup_append.mp hnodup).2.1 a
    rw [queued_eq_count]
    omega
  have hqueued : proc.queued a = 0 ↔ a ∉ proc.messages.map Message.sender := by
    rw [queued_eq_count, List.count_eq_zero]
  have hboth : proc.currentlyServing = some a → proc.queued a = 0 := by
    intro hserving
    rw [pending_peer, hserving] at hnodup
    rw [hqueued]
    exact fun hmem => (List.nodup_append.mp hnodup).2.2 a (by simp) a hmem rfl
  have hpending : a ∈ proc.peer.pending ↔ proc.currentlyServing = some a ∨ proc.queued a ≠ 0 := by
    rw [pending_peer, List.mem_append, Option.mem_toList, ne_eq, hqueued, not_not]
  rw [hpending, HoldsMessageOf, ServesOnly]
  by_cases hserving : proc.currentlyServing = some a
  · simp [Xor, hserving, hboth hserving]
  · rcases hcount with hcount | hcount <;> simp [Xor, hserving, hcount]

end Process

lemma ProcessState.waitsFor_eq_iff {state : ProcessState} :
    state.waitsFor = some (.userspace b) ↔ ∃ place, state.status = .waiting b place := by
  refine ⟨status_of_waitsFor, fun ⟨place, hstatus⟩ => ?_⟩
  rcases status_eq_waiting.mp hstatus with ⟨buffer, rfl, -⟩ | ⟨rfl, -⟩
  · rfl
  · rfl

namespace Kernel

/-! ## Two live processes -/

/-- A live caller waits for a live callee exactly when the callee has it pending. -/
lemma InOrder.waits_iff (h : k.InOrder mode) (ha : k.process? a = some caller)
    (hb : k.process? b = some proc) (hlive : proc.state ≠ .finished) :
    caller.state.waitsFor = some (.userspace b) ↔ a ∈ proc.peer.pending := by
  have hdone : proc.peer.status ≠ .done := fun hd => hlive (ProcessState.status_eq_done.mp hd)
  rw [ProcessState.waitsFor_eq_iff]
  constructor
  · rintro ⟨place, hwaiting⟩
    exact h.inv.waiting (ipc_peer ha) hwaiting (ipc_peer hb) hdone
  · intro hpending
    obtain ⟨p, place, hp, hwaiting⟩ := h.live (ipc_peer hb) hdone hpending
    rw [ipc_peer ha] at hp
    cases hp
    exact ⟨place, hwaiting⟩

/-- The client of a live process is there and waits for it. -/
lemma InOrder.client_waits (h : k.InOrder mode) (hb : k.process? b = some proc)
    (hlive : proc.state ≠ .finished) (hserving : proc.currentlyServing = some a) :
    ∃ caller, k.process? a = some caller ∧ caller.state.waitsFor = some (.userspace b) := by
  have hdone : proc.peer.status ≠ .done := fun hd => hlive (ProcessState.status_eq_done.mp hd)
  have hpending : a ∈ proc.peer.pending := by
    rw [Process.pending_peer, hserving]
    simp
  obtain ⟨p, place, hp, hwaiting⟩ := h.live (ipc_peer hb) hdone hpending
  obtain ⟨caller, hcaller, rfl⟩ := exists_of_ipc_peer hp
  exact ⟨caller, hcaller, ProcessState.waitsFor_eq_iff.mpr ⟨place, hwaiting⟩⟩

/-! ## Replies -/

/-- The places of `ipc_reply` where it does not rely on the link to its caller. -/
def replySites : List Site := processSites ++ replyStreamSites

/-- **A reply finds its caller.**  In user mode the client of the running process is there and waits
for it, so `ipc_reply` can only panic elsewhere. -/
lemma InOrder.ipcReply_panics (h : k.InOrder .user) {result : UserSlice} :
    PanicsAt replySites (k.ipcReply P result) := by
  refine (PanicsAt.mono process_panics (by simp [replySites])).bind fun proc hproc => ?_
  obtain ⟨hpid, hproc, -⟩ := h.ready.process hproc
  cases hserving : proc.currentlyServing with
  | none => exact .pure
  | some callerId =>
      have hrunnable := (h.running rfl).runnable hpid hproc
      obtain ⟨caller, hcaller, hwaits⟩ :=
        h.client_waits hproc (by rw [hrunnable]; simp) hserving
      have hne : callerId ∉ [proc.id] := by
        rw [List.mem_singleton]
        rintro rfl
        rw [hproc] at hcaller
        cases hcaller
        rw [hrunnable] at hwaits
        cases hwaits
      refine (PanicsAt.mono (lockIfSome_panics hne) (by simp [replySites, processSites])).bind
        fun slot hslot => ?_
      obtain ⟨-, -, hfound⟩ := lockIfSome_eq_ok hslot
      rw [hcaller] at hfound
      subst hfound
      dsimp only
      cases hstate : caller.state with
      | waitingForReply server resultBuffer =>
          refine .ite (fun _ => .pure) fun _ => ?_
          exact (PanicsAt.mono copyToKernel_panics (by decide)).bind fun _ _ => .pure
      | waitingForStreamMap server =>
          refine .ite (fun _ => .pure) fun _ => ?_
          exact PanicsAt.mono replyStreamMap_panics (by simp [replySites])
      | runnable => rw [hstate] at hwaits; cases hwaits
      | finished => rw [hstate] at hwaits; cases hwaits
      | readyReply reply buffer => rw [hstate] at hwaits; cases hwaits
      | readyStreamMap ring declaredSize => rw [hstate] at hwaits; cases hwaits

end Kernel

/-- **The rendezvous invariant.**  In every reachable state a live caller waits for a live callee
exactly when either the callee's queue holds one message of the caller, whom it does not serve, or it
serves the caller and its queue holds no message of the caller.  A queue holds messages with
capabilities of its owner, at most one of each sender.  A call of `ipc_reply` finds its caller, in a
state in which it waits, and for nobody else. -/
theorem Reachable.rendezvous {k : Kernel} {mode : Mode} (h : Reachable P (k, mode)) :
    (∀ a b caller proc, k.process? a = some caller → k.process? b = some proc →
      caller.state ≠ .finished → proc.state ≠ .finished →
      (caller.state.waitsFor = some (.userspace b) ↔
        Xor (proc.HoldsMessageOf a) (proc.ServesOnly a))) ∧
    (∀ b proc, k.process? b = some proc →
      (∀ message ∈ proc.messages, message.cap.certifier = .ok (.userspace b)) ∧
      (proc.messages.map Message.sender).Nodup) ∧
    (mode = .user → ∀ oracle result,
      (∀ e, { k with oracle := oracle }.ipcReply P result = .error e →
        e ≠ .unwrap .ipcReplyCaller ∧ e ≠ .unimplemented .ipcReplyState) ∧
      ∀ k' r, { k with oracle := oracle }.ipcReply P result = .ok (k', r) →
        ∀ line ∈ k'.console, line.2.2 ≠ .waitingForSomeoneElse) := by
  have horder : k.InOrder mode := h.inOrder
  refine ⟨fun a b caller proc ha hb _ hlive => ?_, fun b proc hb => ⟨?_, ?_⟩, ?_⟩
  · rw [horder.waits_iff ha hb hlive]
    exact Process.mem_pending_iff (horder.inv.nodup (Kernel.ipc_peer hb))
  · rw [← horder.ready.id hb]
    exact horder.ready.certified hb
  · have hnodup := horder.inv.nodup (Kernel.ipc_peer hb)
    rw [Process.pending_peer] at hnodup
    exact (List.nodup_append.mp hnodup).2.1
  · rintro rfl oracle result
    have horacle := horder.withOracle oracle
    refine ⟨fun e he => ?_, fun k' r hreply line hline hwaiting => ?_⟩
    · have hwithin := horacle.ipcReply_panics he
      constructor
      · rintro rfl
        exact absurd hwithin (by decide)
      · rintro rfl
        exact absurd hwithin (by decide)
    · obtain ⟨hfollows, -⟩ :=
        Kernel.ipcReply_follows horacle.ready horacle.inv (horacle.running rfl) hreply
      exact horder.console line (hfollows.console line hline hwaiting) hwaiting

/-- The moves after which the second process of a small machine waits for the first one. -/
def callMoves : List Move :=
  [.schedule, .user [(.a6, 9)] [], .trap .userEnvCall, .schedule,
    .user [(.a6, 1), (.a0, 0x2001000), (.a2, 1), (.a4, 1)] [], .trap .userEnvCall]

set_option maxRecDepth 10000 in
/-- On a small machine a caller waits, and its message is in the queue of the callee. -/
theorem Reachable.rendezvous_call : ∃ k mode a b caller proc, Reachable .small (k, mode) ∧
    k.process? a = some caller ∧ k.process? b = some proc ∧
    caller.state.waitsFor = some (.userspace b) ∧
    Xor (proc.HoldsMessageOf a) (proc.ServesOnly a) := by
  have hplayed : (play .small .quiet callMoves).any (fun s =>
      (s.1.process? ⟨2, by decide, by decide⟩).any fun caller =>
        (s.1.process? ⟨1, by decide, by decide⟩).any fun proc =>
          caller.state.waitsFor = some (.userspace ⟨1, by decide, by decide⟩) ∧
            caller.state ≠ .finished ∧ proc.state ≠ .finished) = true := by
    decide +kernel
  obtain ⟨⟨k, mode⟩, hplay, hstate⟩ := (Option.any_eq_true _ _).mp hplayed
  obtain ⟨caller, hcaller, hstate⟩ := (Option.any_eq_true _ _).mp hstate
  obtain ⟨proc, hproc, hstate⟩ := (Option.any_eq_true _ _).mp hstate
  obtain ⟨hwaits, hcallerLive, hprocLive⟩ := of_decide_eq_true hstate
  have hreachable := play_reachable hplay
  exact ⟨k, mode, _, _, caller, proc, hreachable, hcaller, hproc, hwaits,
    (hreachable.rendezvous.1 _ _ caller proc hcaller hproc hcallerLive hprocLive).mp hwaits⟩

end Deravel
