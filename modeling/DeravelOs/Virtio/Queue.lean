import Mathlib.Logic.Relation
import DeravelOs.Lib.Window
import DeravelOs.Types.Basic

/-!
# Virtio queues

`kernel/src/virtio/queue.rs`.  The driver puts the heads of descriptor chains into the available ring
and counts them in `available.index`; the device works through the ring in order and counts what it
is done with in `used.index`.  Both counters have 16 bits.

`send_and_recv` is how the drivers of disks and of the graphics card use a queue: one request at a
time, with a loop that waits for the device.

* `Queue.publish`, `Queue.Waits`: the two parts of `send_and_recv`.
* `Queue.head`, `Queue.complete`: what the device does with the next request.
* `Requests.Reachable`: any number of requests, and a device that takes as long as it likes.
* `Requests.Reachable.sendAndRecv_iff`: a request is published and awaited if and only if fewer than
  65535 requests were sent before, because `available.index` is incremented with an overflow check.
-/

namespace Deravel

/-- `Descriptor`; instead of the address of a buffer there is its number. -/
structure Descriptor where
  buffer : ℕ
  length : ℕ
  deriving DecidableEq, Repr

/-- `AvailableRing` -/
structure AvailableRing (size : ℕ) where
  index : ℕ
  ring : Fin size → ℕ

/-- `UsedElement` -/
structure UsedElement where
  id : ℕ
  len : ℕ
  deriving DecidableEq, Repr

/-- `UsedRing` -/
structure UsedRing (size : ℕ) where
  index : ℕ
  ring : Fin size → UsedElement

/-- `Queue`, in memory that the driver shares with the device. -/
structure Queue (size : ℕ) where
  descriptors : Fin size → Descriptor
  available : AvailableRing size
  used : UsedRing size

namespace Queue

variable {size : ℕ} [NeZero size]

/-- The slot of an index in both rings. -/
def slot (index : ℕ) : Fin size := Fin.ofNat size index

/-- `Queue::new`: zeroed memory. -/
def new : Queue size := ⟨fun _ => ⟨0, 0⟩, ⟨0, fun _ => 0⟩, ⟨0, fun _ => ⟨0, 0⟩⟩⟩

/-- `send_and_recv`, up to the loop. -/
def publish (q : Queue size) (descriptor : ℕ) : Checked (Queue size) := do
  let ring := Function.update q.available.ring (slot q.available.index) descriptor
  let index ← uintAdd 16 .sendAndRecv q.available.index 1
  pure { q with available := ⟨index, ring⟩ }

/-- The condition of the loop of `send_and_recv`. -/
abbrev Waits (q : Queue size) : Prop := q.used.index < q.available.index

/-! ## The device -/

/-- There is a request that the device has not completed. -/
abbrev HasNext (q : Queue size) : Prop := q.used.index ≠ q.available.index

/-- The request that the device completes next. -/
def head (q : Queue size) : ℕ := q.available.ring (slot q.used.index)

/-- The device has written `len` bytes for the request and is done with it. -/
def complete (q : Queue size) (len : ℕ) : Queue size :=
  { q with
    used := ⟨(q.used.index + 1) % 2 ^ 16,
      Function.update q.used.ring (slot q.used.index) ⟨q.head, len⟩⟩ }

@[simp] lemma complete_available (q : Queue size) (len : ℕ) :
    (q.complete len).available = q.available := rfl

@[simp] lemma complete_descriptors (q : Queue size) (len : ℕ) :
    (q.complete len).descriptors = q.descriptors := rfl

/-- The buffer of the next request, if that has only one descriptor. -/
def nextBuffer (q : Queue size) : Fin size := slot (q.descriptors (slot q.head)).buffer

/-! ## Entries that stay -/

/-- A queue whose available entry `i` is for the descriptor `i`, and that for the buffer `i`. -/
def prepared (length published : ℕ) : Queue size :=
  { (new : Queue size) with
    descriptors := fun i => ⟨i, length⟩
    available := ⟨published, fun i => i⟩ }

/-- The entries and the buffers are as `prepared` has made them. -/
structure Straight (q : Queue size) : Prop where
  ring : ∀ i, q.available.ring i = i
  buffer : ∀ i, (q.descriptors i).buffer = i

omit [NeZero size] in
lemma straight_prepared {length published : ℕ} :
    (prepared length published : Queue size).Straight := ⟨fun _ => rfl, fun _ => rfl⟩

lemma slot_val (i : Fin size) : slot (i : ℕ) = i := Fin.ofNat_val_eq_self i

variable {q : Queue size} {i j : ℕ}

lemma Straight.head_eq (h : q.Straight) : q.head = (slot q.used.index : Fin size) := h.ring _

lemma Straight.nextBuffer_eq (h : q.Straight) : q.nextBuffer = slot q.used.index := by
  rw [nextBuffer, h.buffer, slot_val, h.head_eq, slot_val]

lemma slot_eq_iff : (slot i : Fin size) = slot j ↔ i % size = j % size := Fin.ext_iff

/-- The slot of a count is the one of its index of 16 bits. -/
lemma slot_mod (h : size ∣ 2 ^ 16) : (slot (i % 2 ^ 16) : Fin size) = slot i := by
  rw [slot_eq_iff, Nat.mod_mod_of_dvd _ h]

/-- The buffers that belong to the device: those of the entries from `used.index` up to
`available.index`, modulo 2^16. -/
def owned (q : Queue size) : List (Fin size) :=
  (List.range ((q.available.index + 2 ^ 16 - q.used.index) % 2 ^ 16)).map fun d =>
    slot (q.descriptors (slot (q.available.ring (slot (q.used.index + d))))).buffer

/-- The indices are two counts modulo 2^16. -/
structure Counts (q : Queue size) (done published : ℕ) : Prop where
  straight : q.Straight
  window : Window size done published
  used : q.used.index = done % 2 ^ 16
  available : q.available.index = published % 2 ^ 16

section Counts

variable {done published : ℕ}

omit [NeZero size] in
lemma Counts.hasNext_iff (h : q.Counts done published) (hsize : size < 2 ^ 16) :
    q.HasNext ↔ done < published := by
  have hle := h.window.le
  rw [HasNext, h.used, h.available, Ne, h.window.mod_eq_iff hsize]
  omega

omit [NeZero size] in
/-- The test for a full window, which the drivers make with the indices. -/
lemma Counts.full_iff (h : q.Counts done published) (hsize : size < 2 ^ 16) :
    q.available.index = (q.used.index + size) % 2 ^ 16 ↔ published = done + size := by
  rw [h.used, h.available, h.window.full_iff hsize]

lemma Counts.nextBuffer_eq (h : q.Counts done published) (hsize : size ∣ 2 ^ 16) :
    q.nextBuffer = slot done := by
  rw [h.straight.nextBuffer_eq, h.used, slot_mod hsize]

lemma Counts.complete (h : q.Counts done published) (hlt : done < published) (len : ℕ) :
    (q.complete len).Counts (done + 1) published where
  straight := ⟨h.straight.ring, h.straight.buffer⟩
  window := h.window.finish hlt
  used := by
    show (q.used.index + 1) % 2 ^ 16 = (done + 1) % 2 ^ 16
    rw [h.used, Nat.mod_add_mod]
  available := h.available

lemma Counts.owned_eq (h : q.Counts done published) (hsize : size < 2 ^ 16)
    (hdvd : size ∣ 2 ^ 16) : q.owned = (List.range' done (published - done)).map slot := by
  have hle := h.window.le
  have hbounded := h.window.bounded
  have hcount : (q.available.index + 2 ^ 16 - q.used.index) % 2 ^ 16 = published - done := by
    rw [h.used, h.available]
    omega
  rw [owned, hcount, List.range'_eq_map_range, List.map_map]
  refine List.map_congr_left fun d _ => ?_
  rw [h.straight.buffer, slot_val, h.straight.ring, slot_val, h.used, Function.comp_apply,
    slot_eq_iff, Nat.add_mod, Nat.mod_mod_of_dvd _ hdvd, ← Nat.add_mod]

/-- The buffers of the device have the slots of the window. -/
lemma Counts.mem_owned (h : q.Counts done published) (hsize : size < 2 ^ 16)
    (hdvd : size ∣ 2 ^ 16) {i : Fin size} :
    i ∈ q.owned ↔ ∃ k, done ≤ k ∧ k < published ∧ slot k = i := by
  have hle := h.window.le
  rw [h.owned_eq hsize hdvd, List.mem_map]
  refine exists_congr fun k => ?_
  rw [List.mem_range'_1, Nat.add_sub_cancel' hle, and_assoc]

/-- A slot that the device is done with is not one of its buffers before it is published again. -/
lemma Counts.slot_notMem_owned (h : q.Counts done published) (hsize : size < 2 ^ 16)
    (hdvd : size ∣ 2 ^ 16) (hi : i < done) (hroom : published ≤ i + size) : slot i ∉ q.owned := by
  rw [h.mem_owned hsize hdvd]
  rintro ⟨k, hdone, hlt, heq⟩
  exact Window.mod_ne (hi.trans_le hdone) (hlt.trans_le hroom) (slot_eq_iff.mp heq.symm)

/-- The next slot is not one of the device, unless the window is full. -/
lemma Counts.next_notMem_owned (h : q.Counts done published) (hsize : size < 2 ^ 16)
    (hdvd : size ∣ 2 ^ 16) (hroom : published < done + size) : slot published ∉ q.owned := by
  rw [h.mem_owned hsize hdvd]
  rintro ⟨k, hdone, hlt, heq⟩
  exact Window.next_slot_ne hroom hdone hlt (slot_eq_iff.mp heq)

end Counts

/-- A head can be published until the index has its last value. -/
lemma publish_eq_ok {q q' : Queue size} {descriptor : ℕ} :
    q.publish descriptor = .ok q' ↔ q.available.index + 1 < 2 ^ 16 ∧
      q' = { q with available := ⟨q.available.index + 1,
        Function.update q.available.ring (slot q.available.index) descriptor⟩ } := by
  constructor
  · intro h
    obtain ⟨index, hindex, h⟩ := Checked.bind_eq_ok.mp h
    obtain ⟨hlt, rfl⟩ := uintAdd_eq_ok.mp hindex
    exact ⟨hlt, (Except.ok.inj h).symm⟩
  · rintro ⟨hlt, rfl⟩
    exact Checked.bind_eq_ok.mpr ⟨_, uintAdd_eq_ok.mpr ⟨hlt, rfl⟩, rfl⟩

end Queue

/-! ## One request at a time -/

/-- A queue with the requests that were made on it: whether a call of `send_and_recv` is in its loop,
what was sent, and what the device has completed. -/
structure Requests (size : ℕ) where
  queue : Queue size
  waiting : Bool
  sent : List ℕ
  completed : List ℕ

namespace Requests

variable {size : ℕ} [NeZero size] {s t : Requests size}

/-- A queue before its first request. -/
def new : Requests size := ⟨.new, false, [], []⟩

/-- The driver publishes a request. -/
def send (s : Requests size) (descriptor : ℕ) : Checked (Requests size) := do
  let queue ← s.queue.publish descriptor
  pure { s with queue := queue, waiting := true, sent := s.sent ++ [descriptor] }

/-- The device completes a request. -/
inductive Serves : Requests size → Requests size → Prop
  | complete {s : Requests size} (len : ℕ) (h : s.queue.HasNext) :
      Serves s { s with
        queue := s.queue.complete len, completed := s.completed ++ [s.queue.head] }

/-- What the driver or the device does next. -/
inductive Step : Requests size → Requests size → Prop
  | send {s t : Requests size} (descriptor : ℕ) (h : s.waiting = false)
      (hsend : s.send descriptor = .ok t) : Step s t
  | device {s t : Requests size} (h : Serves s t) : Step s t
  | recv {s : Requests size} (h : s.waiting = true) (hdone : ¬ s.queue.Waits) :
      Step s { s with waiting := false }

/-- The driver and the device have got here. -/
abbrev Reachable (s : Requests size) : Prop := Relation.ReflTransGen Step new s

/-- The indices count the requests, of which at most the last one is not completed. -/
structure Inv (s : Requests size) : Prop where
  available : s.queue.available.index = s.sent.length
  used : s.queue.used.index = s.completed.length
  lt : s.sent.length < 2 ^ 16
  completed : s.completed = s.sent ∨
    s.waiting = true ∧ s.sent = s.completed ++ [s.queue.head]

lemma Inv.new : (new : Requests size).Inv where
  available := rfl
  used := rfl
  lt := Nat.two_pow_pos 16
  completed := Or.inl rfl

/-- The loop of `send_and_recv` ends when everything is completed. -/
lemma Inv.waits_iff (h : s.Inv) : ¬ s.queue.Waits ↔ s.completed = s.sent := by
  rw [Queue.Waits, h.available, h.used, not_lt]
  constructor
  · intro hle
    rcases h.completed with heq | ⟨-, hsent⟩
    · exact heq
    · simp [hsent] at hle
  · intro heq
    rw [heq]

lemma Inv.hasNext_iff (h : s.Inv) : s.queue.HasNext ↔ s.completed ≠ s.sent := by
  rw [Queue.HasNext, h.available, h.used]
  constructor
  · intro hne heq
    exact hne (by rw [heq])
  · intro hne heq
    rcases h.completed with hsame | ⟨-, hsent⟩
    · exact hne hsame
    · simp [hsent] at heq

/-- The device completes the request that was sent last. -/
lemma Inv.serves (h : s.Inv) (hserves : Serves s t) :
    t.Inv ∧ t.sent = s.sent ∧ t.completed = s.sent := by
  cases hserves with
  | complete len hnext =>
      rcases h.completed with heq | ⟨-, hsent⟩
      · exact absurd heq (h.hasNext_iff.mp hnext)
      · have hlt := h.lt
        rw [hsent, List.length_append, List.length_singleton] at hlt
        refine ⟨⟨h.available, ?_, h.lt, Or.inl hsent.symm⟩, rfl, hsent.symm⟩
        show (s.queue.used.index + 1) % 2 ^ 16 = _
        rw [h.used, List.length_append, List.length_singleton, Nat.mod_eq_of_lt hlt]

/-- What a call of `send_and_recv` has published when it comes to its loop. -/
structure Published (s : Requests size) (descriptor : ℕ) (t : Requests size) : Prop where
  inv : t.Inv
  waiting : t.waiting = true
  sent : t.sent = s.sent ++ [descriptor]
  completed : t.completed = s.sent
  index : t.queue.available.index = s.sent.length + 1
  entry : t.queue.available.ring (Queue.slot s.sent.length) = descriptor

lemma Inv.send (h : s.Inv) (hidle : s.waiting = false) {descriptor : ℕ}
    (hsend : s.send descriptor = .ok t) : Published s descriptor t := by
  obtain ⟨queue, hpublish, hsend⟩ := Checked.bind_eq_ok.mp hsend
  obtain rfl := Except.ok.inj hsend
  obtain ⟨hlt, rfl⟩ := Queue.publish_eq_ok.mp hpublish
  have hcompleted : s.completed = s.sent := by
    rcases h.completed with heq | ⟨hwaiting, -⟩
    · exact heq
    · rw [hidle] at hwaiting
      cases hwaiting
  have hentry : Function.update s.queue.available.ring (Queue.slot s.queue.available.index)
      descriptor (Queue.slot s.sent.length) = descriptor := by
    rw [h.available, Function.update_self]
  rw [h.available] at hlt
  refine ⟨⟨?_, h.used, ?_, Or.inr ⟨rfl, ?_⟩⟩, rfl, rfl, hcompleted, ?_, hentry⟩
  · simp [h.available]
  · simpa using hlt
  · -- the device has come as far as the new entry
    have hhead : Function.update s.queue.available.ring (Queue.slot s.queue.available.index)
        descriptor (Queue.slot s.queue.used.index) = descriptor := by
      rw [h.used, hcompleted, hentry]
    exact (congrArg₂ (fun done next => done ++ [next]) hcompleted hhead).symm
  · simp [h.available]

/-- A request that is published is one that the device can complete. -/
lemma Published.hasNext {descriptor : ℕ} (h : Published s descriptor t) : t.queue.HasNext := by
  rw [h.inv.hasNext_iff, h.completed, h.sent]
  exact fun heq => absurd (congrArg List.length heq) (by simp)

lemma Inv.exists_send (h : s.Inv) (hlt : s.sent.length < 65535) (descriptor : ℕ) :
    ∃ t, s.send descriptor = .ok t := by
  have hlt' : s.queue.available.index + 1 < 2 ^ 16 := by
    rw [h.available]
    omega
  exact ⟨_, Checked.bind_eq_ok.mpr ⟨_, Queue.publish_eq_ok.mpr ⟨hlt', rfl⟩, rfl⟩⟩

lemma Inv.step (h : s.Inv) (hstep : Step s t) : t.Inv := by
  cases hstep with
  | send descriptor hidle hsend => exact (h.send hidle hsend).inv
  | device hserves => exact (h.serves hserves).1
  | recv hwaiting hdone => exact ⟨h.available, h.used, h.lt, Or.inl (h.waits_iff.mp hdone)⟩

lemma Reachable.inv (h : s.Reachable) : s.Inv := by
  induction h with
  | refl => exact .new
  | tail _ hstep ih => exact ih.step hstep

/-- However much the device does while a call of `send_and_recv` is in its loop, it sends nothing. -/
lemma Inv.device (h : s.Inv) (hrun : Relation.ReflTransGen Serves s t) :
    t.Inv ∧ t.sent = s.sent := by
  induction hrun with
  | refl => exact ⟨h, rfl⟩
  | tail _ hserves ih =>
      obtain ⟨hinv, hsent, -⟩ := ih.1.serves hserves
      exact ⟨hinv, hsent.trans ih.2⟩

/-- **`send_and_recv` is synchronous until the index overflows.**  A call of it publishes its request
in the slot of the next index, the device, if it has done anything, has completed this request, and
the loop ends when it has: if and only if fewer than 65535 requests were sent before. -/
theorem Reachable.sendAndRecv_iff (h : s.Reachable) (hidle : s.waiting = false)
    (descriptor : ℕ) :
    (∃ t, s.send descriptor = .ok t ∧ t.queue.available.index = s.sent.length + 1 ∧
      t.queue.available.ring (Queue.slot s.sent.length) = descriptor ∧
      (∃ u, Serves t u) ∧
      ∀ u, Relation.ReflTransGen Serves t u →
        (¬ u.queue.Waits ↔ u.completed = s.sent ++ [descriptor]) ∧
        (u.completed = s.sent ∨ u.completed = s.sent ++ [descriptor])) ↔
      s.sent.length < 65535 := by
  have hinv := h.inv
  constructor
  · rintro ⟨t, hsend, hindex, -⟩
    have hlt := (hinv.send hidle hsend).inv.lt
    rw [(hinv.send hidle hsend).sent, List.length_append, List.length_singleton] at hlt
    omega
  · intro hlt
    obtain ⟨t, hsend⟩ := hinv.exists_send hlt descriptor
    have hpublished := hinv.send hidle hsend
    refine ⟨t, hsend, hpublished.index, hpublished.entry, ⟨_, .complete 0 hpublished.hasNext⟩, ?_⟩
    intro u hrun
    obtain ⟨hu, hsent⟩ := hpublished.inv.device hrun
    rw [hpublished.sent] at hsent
    rw [← hsent]
    refine ⟨hu.waits_iff, ?_⟩
    rcases hu.completed with heq | ⟨-, hsent'⟩
    · exact Or.inr heq
    · rw [hsent] at hsent'
      exact Or.inl (List.append_inj_left' hsent' rfl).symm

/-- The first request on a queue. -/
theorem sendAndRecv_first :
    ∃ t, (new : Requests 16).send 0 = .ok t ∧ t.queue.available.index = 0 + 1 ∧
      t.queue.available.ring (Queue.slot 0) = 0 ∧ (∃ u, Serves t u) ∧
      ∀ u, Relation.ReflTransGen Serves t u →
        (¬ u.queue.Waits ↔ u.completed = [] ++ [0]) ∧ (u.completed = [] ∨ u.completed = [] ++ [0]) :=
  (Reachable.sendAndRecv_iff .refl rfl 0).mpr (by decide)

/-- Requests can be made one after the other until the index has its last value. -/
lemma exists_idle {n : ℕ} (hn : n ≤ 65535) :
    ∃ s : Requests size, s.Reachable ∧ s.waiting = false ∧ s.sent.length = n := by
  induction n with
  | zero => exact ⟨new, .refl, rfl, rfl⟩
  | succ n ih =>
      obtain ⟨s, hreach, hidle, hlen⟩ := ih (by omega)
      obtain ⟨t, hsend⟩ := hreach.inv.exists_send (by omega) 0
      have hpublished := hreach.inv.send hidle hsend
      have hserves := Serves.complete 0 hpublished.hasNext
      obtain ⟨hu, hsent, hcompleted⟩ := hpublished.inv.serves hserves
      have hdone := hu.waits_iff.mpr hcompleted
      refine ⟨_, ((hreach.tail (.send 0 hidle hsend)).tail (.device hserves)).tail
        (.recv hpublished.waiting hdone), rfl, ?_⟩
      show t.sent.length = n + 1
      rw [hpublished.sent, List.length_append, hlen, List.length_singleton]

/-- The last request of a long uptime panics. -/
theorem not_sendAndRecv_forever : ∃ s : Requests 16, s.Reachable ∧ s.waiting = false ∧
    s.sent.length = 65535 ∧ s.send 0 = .error (.overflow .sendAndRecv) := by
  obtain ⟨s, hreach, hidle, hlen⟩ : ∃ s : Requests 16, _ := exists_idle (le_refl 65535)
  refine ⟨s, hreach, hidle, hlen, ?_⟩
  have hindex : s.queue.available.index = 65535 := hreach.inv.available.trans hlen
  simp [send, Queue.publish, uintAdd, hindex]
  rfl

end Requests

end Deravel
