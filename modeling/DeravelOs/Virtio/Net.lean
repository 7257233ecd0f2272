import DeravelOs.Lib.BoundedQueue
import DeravelOs.Virtio.Queue

/-!
# Network cards

`kernel/src/virtio/net.rs`.  Sixteen buffers are for frames that the device receives, sixteen for
those that it is to transmit, and which of them belong to the device is only in the distance of two
indices.  The driver hands out a buffer as a token, which is consumed, with a function that reads or
writes the frame, or dropped; a token for a received frame comes with one for the answer, and they
need not be consumed one after the other.

The additions to the indices are modulo 2^16 here; without overflow checks they are, too.

* `Receiver`, `Transmitter`: the two queues, each with its buffers and the token that is out.
* `VirtioNet.Step`: what the driver, its caller and the device do next, in any order.
* `VirtioNet.Reachable.consistent`: each received frame is handed to one consumed token, in order, out of
  its own buffer; a token is offered exactly if there is a buffer for it; and what the driver writes
  to or reads from is never a buffer of the device.
-/

namespace Deravel

/-- `QUEUE_SIZE` -/
abbrev netBuffers : ℕ := 16

/-- `size_of::<Header>()` -/
def headerSize : ℕ := 10

/-- The length of the payload of a `Packet`. -/
def payloadRoom : ℕ := 1514

/-- The payload of a frame, as bytes. -/
abbrev Frame : Type := List UInt8

/-- A payload with its first bytes overwritten. -/
def overwrite (frame old : Frame) : Frame := frame ++ old.drop frame.length

@[simp] lemma take_overwrite (frame old : Frame) : (overwrite frame old).take frame.length = frame :=
  List.take_left

/-! ## Receiving -/

/-- A `PacketReceiveToken`, or what is left of one that is being consumed: the function that it was
given reads this many bytes of this buffer. -/
inductive ReceiveToken
  | none
  | offered
  | reading (buffer : Fin netBuffers) (length : ℕ)
  deriving DecidableEq

/-- `rx_queue` and `rx_buffers`, with the frames that the device has received and those that tokens
were consumed with, each with its buffer. -/
structure Receiver where
  queue : Queue netBuffers
  buffers : Fin netBuffers → Frame
  token : ReceiveToken
  received : List (Fin netBuffers × Frame)
  handed : List (Fin netBuffers × Frame)

namespace Receiver

/-- `initialize_receive_buffers` -/
def new : Receiver where
  queue := .prepared (headerSize + payloadRoom) netBuffers
  buffers := fun _ => .replicate payloadRoom 0
  token := .none
  received := []
  handed := []

/-- The first check of `receive`. -/
abbrev IsEmpty (r : Receiver) : Prop :=
  r.queue.available.index = (r.queue.used.index + netBuffers) % 2 ^ 16

/-- `RxToken::consume`, up to the call of the function. -/
def consume (r : Receiver) : Checked Receiver := do
  let element := r.queue.used.ring (Queue.slot r.queue.available.index)
  ensure (element.id < netBuffers) (.indexOutOfBounds .netConsume)
  let length ← uintSub .netConsume element.len headerSize
  ensure (length ≤ payloadRoom) (.indexOutOfBounds .netConsume)
  pure { r with token := .reading (Queue.slot element.id) length }

/-- `RxToken::consume`, after the call of the function. -/
def consumed (r : Receiver) (buffer : Fin netBuffers) (length : ℕ) : Receiver :=
  { r with
    queue := { r.queue with
      available := ⟨(r.queue.available.index + 1) % 2 ^ 16, r.queue.available.ring⟩ }
    token := .none
    handed := r.handed ++ [(buffer, (r.buffers buffer).take length)] }

/-- The device receives a frame. -/
def complete (r : Receiver) (frame : Frame) : Receiver :=
  { r with
    queue := r.queue.complete (headerSize + frame.length)
    buffers := Function.update r.buffers r.queue.nextBuffer
      (overwrite frame (r.buffers r.queue.nextBuffer))
    received := r.received ++ [(r.queue.nextBuffer, frame)] }

/-- What the device and the holder of the token do next. -/
inductive Step : Receiver → Receiver → Prop
  | scribble {r : Receiver} (i : Fin netBuffers) (content : Frame) (h : i ∈ r.queue.owned) :
      Step r { r with buffers := Function.update r.buffers i content }
  | complete {r : Receiver} (frame : Frame) (h : r.queue.HasNext)
      (hlen : frame.length ≤ payloadRoom) : Step r (r.complete frame)
  | consume {r r' : Receiver} (h : r.token = .offered) (hstep : r.consume = .ok r') : Step r r'
  | consumed {r : Receiver} {buffer : Fin netBuffers} {length : ℕ}
      (h : r.token = .reading buffer length) : Step r (r.consumed buffer length)
  | drop {r : Receiver} (h : r.token = .offered) : Step r { r with token := .none }

variable {r r' : Receiver}

/-- The indices count the frames, and a frame that no token was consumed with is in its buffer. -/
structure Inv (r : Receiver) : Prop where
  counts : r.queue.Counts r.received.length (r.handed.length + netBuffers)
  handed : r.handed <+: r.received
  filled : ∀ k x, r.handed.length ≤ k → r.received[k]? = some x →
    x.1 = Queue.slot k ∧ x.2.length ≤ payloadRoom ∧
      r.queue.used.ring (Queue.slot k) = ⟨x.1, headerSize + x.2.length⟩ ∧
      (r.buffers (Queue.slot k)).take x.2.length = x.2
  offered : r.token ≠ .none → r.handed.length < r.received.length
  reading : ∀ buffer length, r.token = .reading buffer length →
    ∃ x, r.received[r.handed.length]? = some x ∧ buffer = x.1 ∧ length = x.2.length

lemma Inv.new : new.Inv where
  counts := ⟨Queue.straight_prepared, ⟨Nat.zero_le _, le_rfl⟩, rfl, rfl⟩
  handed := List.prefix_rfl
  filled := fun _ _ _ h => by cases h
  offered := fun h => absurd rfl h
  reading := fun _ _ h => by cases h

lemma Inv.isEmpty_iff (h : r.Inv) : r.IsEmpty ↔ r.handed.length = r.received.length := by
  rw [IsEmpty, h.counts.full_iff (by decide)]
  omega

lemma Inv.owned_length (h : r.Inv) :
    r.queue.owned.length + (r.received.length - r.handed.length) = netBuffers := by
  have hle := h.handed.length_le
  have hbounded := h.counts.window.le
  rw [h.counts.owned_eq (by decide) (by decide), List.length_map, List.length_range']
  omega

/-- A buffer of the device has no frame that is still to be handed out. -/
lemma Inv.slot_notMem_owned (h : r.Inv) {k : ℕ} (hk : r.handed.length ≤ k)
    (hlt : k < r.received.length) : Queue.slot k ∉ r.queue.owned :=
  h.counts.slot_notMem_owned (by decide) (by decide) hlt (Nat.add_le_add_right hk _)

lemma Inv.scribble (h : r.Inv) {i : Fin netBuffers} (content : Frame)
    (hi : i ∈ r.queue.owned) :
    Inv { r with buffers := Function.update r.buffers i content } := by
  refine { h with filled := ?_ }
  intro k x hk hx
  obtain ⟨hslot, hlen, hused, htake⟩ := h.filled k x hk hx
  have hne : Queue.slot k ≠ i := by
    rintro rfl
    exact h.slot_notMem_owned hk (List.getElem?_eq_some_iff.mp hx).1 hi
  refine ⟨hslot, hlen, hused, ?_⟩
  show (Function.update r.buffers i content (Queue.slot k)).take x.2.length = x.2
  rw [Function.update_of_ne hne, htake]

lemma Inv.complete (h : r.Inv) {frame : Frame} (hnext : r.queue.HasNext)
    (hlen : frame.length ≤ payloadRoom) : (r.complete frame).Inv := by
  have hlt := (h.counts.hasNext_iff (by decide)).mp hnext
  have hbuffer := h.counts.nextBuffer_eq (by decide)
  have hused : r.queue.used.index = r.received.length % 2 ^ 16 := h.counts.used
  have hslot : (Queue.slot r.queue.used.index : Fin netBuffers) = Queue.slot r.received.length := by
    rw [hused, Queue.slot_mod (by decide)]
  refine ⟨?_, ?_, ?_, ?_, ?_⟩
  · show (r.queue.complete _).Counts (r.received ++ [_]).length (r.handed.length + netBuffers)
    rw [List.length_append, List.length_singleton]
    exact h.counts.complete hlt _
  · exact h.handed.trans (List.prefix_append _ _)
  · intro k x hk hx
    show x.1 = _ ∧ _ ∧ Function.update r.queue.used.ring (Queue.slot r.queue.used.index)
      ⟨r.queue.head, headerSize + frame.length⟩ (Queue.slot k) = _ ∧
      (Function.update r.buffers r.queue.nextBuffer
        (overwrite frame (r.buffers r.queue.nextBuffer)) (Queue.slot k)).take _ = _
    rw [hbuffer, hslot]
    rw [Receiver.complete] at hx
    rcases Nat.lt_or_ge k r.received.length with hold | hnew
    · -- the frame before is in another buffer
      have hne : (Queue.slot k : Fin netBuffers) ≠ Queue.slot r.received.length := by
        have hk : r.handed.length ≤ k := hk
        rw [Ne, Queue.slot_eq_iff]
        exact Window.mod_ne hold (hlt.trans_le (Nat.add_le_add_right hk _))
      rw [List.getElem?_append_left hold] at hx
      rw [Function.update_of_ne hne, Function.update_of_ne hne]
      exact h.filled k x hk hx
    · rw [List.getElem?_append_right hnew, List.getElem?_singleton] at hx
      split at hx
      · obtain rfl : k = r.received.length := by omega
        obtain rfl := Option.some.inj hx
        rw [Function.update_self, Function.update_self, h.counts.straight.head_eq, hslot, hbuffer]
        exact ⟨rfl, hlen, rfl, take_overwrite _ _⟩
      · cases hx
  · intro htoken
    show r.handed.length < (r.received ++ [_]).length
    rw [List.length_append]
    exact (h.offered htoken).trans_le (Nat.le_add_right _ _)
  · intro buffer length htoken
    obtain ⟨x, hx, heq⟩ := h.reading buffer length htoken
    refine ⟨x, ?_, heq⟩
    show (r.received ++ [_])[r.handed.length]? = some x
    rwa [List.getElem?_append_left (List.getElem?_eq_some_iff.mp hx).1]

/-- A token that is offered has a frame, and is consumed with it. -/
lemma Inv.consume_eq (h : r.Inv) (hoffered : r.token = .offered) :
    ∃ x, r.received[r.handed.length]? = some x ∧
      r.consume = .ok { r with token := .reading x.1 x.2.length } := by
  have hlt := h.offered (by rw [hoffered]; exact ReceiveToken.noConfusion)
  have hx := List.getElem?_eq_getElem hlt
  obtain ⟨hslot, hlen, hused, -⟩ := h.filled _ _ le_rfl hx
  have hindex : (Queue.slot r.queue.available.index : Fin netBuffers) =
      Queue.slot r.handed.length := by
    rw [h.counts.available, Queue.slot_mod (by decide), Queue.slot_eq_iff, Nat.add_mod_right]
  refine ⟨_, hx, ?_⟩
  rw [consume, hindex, hused]
  refine Checked.bind_eq_ok.mpr ⟨(), ensure_pos (Fin.isLt _), ?_⟩
  refine Checked.bind_eq_ok.mpr ⟨_, uintSub_eq_ok.mpr ⟨Nat.le_add_right _ _, rfl⟩, ?_⟩
  rw [Nat.add_sub_cancel_left]
  refine Checked.bind_eq_ok.mpr ⟨(), ensure_pos hlen, ?_⟩
  rw [Queue.slot_val]
  rfl

lemma Inv.consumed (h : r.Inv) {buffer : Fin netBuffers} {length : ℕ}
    (hreading : r.token = .reading buffer length) : (r.consumed buffer length).Inv := by
  obtain ⟨x, hx, rfl, rfl⟩ := h.reading buffer length hreading
  have hlt := (List.getElem?_eq_some_iff.mp hx).1
  obtain ⟨hslot, -, -, htake⟩ := h.filled _ _ le_rfl hx
  have hhanded : r.handed ++ [(x.1, (r.buffers x.1).take x.2.length)] <+: r.received := by
    rw [hslot, htake, ← hslot]
    exact BoundedQueue.prefix_append h.handed hx
  have hlen : (r.handed ++ [(x.1, (r.buffers x.1).take x.2.length)]).length =
      r.handed.length + 1 := by
    rw [List.length_append, List.length_singleton]
  refine ⟨?_, hhanded, ?_, fun htoken => absurd rfl htoken, fun _ _ htoken => by cases htoken⟩
  · refine ⟨⟨h.counts.straight.ring, h.counts.straight.buffer⟩, ?_, h.counts.used, ?_⟩
    · show Window netBuffers r.received.length ((r.handed ++ [_]).length + netBuffers)
      rw [hlen, Nat.add_right_comm]
      exact h.counts.window.publish (Nat.add_lt_add_right hlt _)
    · show (r.queue.available.index + 1) % 2 ^ 16 = ((r.handed ++ [_]).length + netBuffers) % 2 ^ 16
      rw [hlen, h.counts.available, Nat.mod_add_mod, Nat.add_right_comm]
  · intro k y hk hy
    refine h.filled k y ?_ hy
    have hk : (r.handed ++ [_]).length ≤ k := hk
    rw [hlen] at hk
    omega

lemma Inv.step (h : r.Inv) (hstep : Step r r') : r'.Inv := by
  cases hstep with
  | scribble i content hi => exact h.scribble content hi
  | complete frame hnext hlen => exact h.complete hnext hlen
  | consume hoffered hconsume =>
      obtain ⟨x, hx, heq⟩ := h.consume_eq hoffered
      rw [heq] at hconsume
      obtain rfl := Except.ok.inj hconsume
      refine { h with offered := ?_, reading := ?_ }
      · exact fun _ => h.offered (by rw [hoffered]; exact ReceiveToken.noConfusion)
      · rintro _ _ ⟨⟩
        exact ⟨x, hx, rfl, rfl⟩
  | consumed hreading => exact h.consumed hreading
  | drop hoffered =>
      exact { h with
        offered := fun htoken => absurd rfl htoken
        reading := fun _ _ htoken => by cases htoken }

/-- A token for a frame that is there. -/
lemma Inv.offer (h : r.Inv) (hlt : r.handed.length < r.received.length) :
    Inv { r with token := .offered } :=
  { h with offered := fun _ => hlt, reading := fun _ _ htoken => by cases htoken }

/-- What is read is the next frame, and the device has left it alone. -/
lemma Inv.reading_next (h : r.Inv) {buffer : Fin netBuffers} {length : ℕ}
    (hreading : r.token = .reading buffer length) : buffer ∉ r.queue.owned ∧
      r.received[r.handed.length]? = some (buffer, (r.buffers buffer).take length) := by
  obtain ⟨x, hx, rfl, rfl⟩ := h.reading buffer length hreading
  obtain ⟨hslot, -, -, htake⟩ := h.filled _ _ le_rfl hx
  rw [hslot, htake, ← hslot]
  refine ⟨?_, hx⟩
  rw [hslot]
  exact h.slot_notMem_owned le_rfl (List.getElem?_eq_some_iff.mp hx).1

/-- Without a token nothing is handed out. -/
lemma Step.of_none (hstep : Step r r') (h : r.token = .none) :
    r'.token = .none ∧ r'.handed = r.handed ∧ r.received.length ≤ r'.received.length := by
  cases hstep with
  | scribble i content hi => exact ⟨h, rfl, le_rfl⟩
  | complete frame hnext hlen =>
      refine ⟨h, rfl, ?_⟩
      show r.received.length ≤ (r.received ++ [_]).length
      rw [List.length_append]
      exact Nat.le_add_right _ _
  | consume hoffered hconsume =>
      rw [h] at hoffered
      cases hoffered
  | consumed hreading =>
      rw [h] at hreading
      cases hreading
  | drop hoffered => exact ⟨rfl, rfl, le_rfl⟩

end Receiver

/-! ## Transmitting -/

/-- A `PacketTransmitToken`, or what is left of one that is being consumed: the function that it was
given writes this many bytes of this buffer. -/
inductive TransmitToken
  | none
  | offered
  | writing (buffer : Fin netBuffers) (length : ℕ)
  deriving DecidableEq

/-- `tx_queue` and `tx_buffers`, with the frames that tokens were consumed with and those that the
device has transmitted. -/
structure Transmitter where
  queue : Queue netBuffers
  buffers : Fin netBuffers → Frame
  token : TransmitToken
  sent : List Frame
  transmitted : List Frame

namespace Transmitter

/-- `initialize_transmit_buffers` -/
def new : Transmitter where
  queue := .prepared (headerSize + payloadRoom) 0
  buffers := fun _ => .replicate payloadRoom 0
  token := .none
  sent := []
  transmitted := []

/-- The check of `transmit`, and the second one of `receive`. -/
abbrev IsFull (t : Transmitter) : Prop :=
  t.queue.available.index = (t.queue.used.index + netBuffers) % 2 ^ 16

/-- `TxToken::consume`, up to the call of the function. -/
def consume (t : Transmitter) (length : ℕ) : Checked Transmitter := do
  ensure (length ≤ payloadRoom) (.indexOutOfBounds .netConsume)
  pure { t with token := .writing (Queue.slot t.queue.available.index) length }

/-- `TxToken::consume`, after the call of the function. -/
def consumed (t : Transmitter) (buffer : Fin netBuffers) (length : ℕ) : Transmitter :=
  { t with
    queue := { t.queue with
      descriptors := Function.update t.queue.descriptors buffer
        { t.queue.descriptors buffer with length := headerSize + length }
      available := ⟨(t.queue.available.index + 1) % 2 ^ 16, t.queue.available.ring⟩ }
    token := .none
    sent := t.sent ++ [(t.buffers buffer).take length] }

/-- The device transmits what is in the next buffer. -/
def complete (t : Transmitter) : Transmitter :=
  { t with
    queue := t.queue.complete 0
    transmitted := t.transmitted ++ [(t.buffers t.queue.nextBuffer).take
      ((t.queue.descriptors (Queue.slot t.queue.head)).length - headerSize)] }

/-- What the device and the holder of the token do next. -/
inductive Step : Transmitter → Transmitter → Prop
  | complete {t : Transmitter} (h : t.queue.HasNext) : Step t t.complete
  | consume {t t' : Transmitter} (length : ℕ) (h : t.token = .offered)
      (hstep : t.consume length = .ok t') : Step t t'
  | write {t : Transmitter} {buffer : Fin netBuffers} {length : ℕ} (frame : Frame)
      (h : t.token = .writing buffer length) (hlen : frame.length = length) :
      Step t { t with
        buffers := Function.update t.buffers buffer (overwrite frame (t.buffers buffer)) }
  | consumed {t : Transmitter} {buffer : Fin netBuffers} {length : ℕ}
      (h : t.token = .writing buffer length) : Step t (t.consumed buffer length)
  | drop {t : Transmitter} (h : t.token = .offered) : Step t { t with token := .none }

variable {t t' : Transmitter}

/-- The indices count the frames, and a frame that the device has not transmitted is in its buffer. -/
structure Inv (t : Transmitter) : Prop where
  counts : t.queue.Counts t.transmitted.length t.sent.length
  transmitted : t.transmitted <+: t.sent
  filled : ∀ k frame, t.transmitted.length ≤ k → t.sent[k]? = some frame →
    ∃ length, (t.queue.descriptors (Queue.slot k)).length = headerSize + length ∧
      (t.buffers (Queue.slot k)).take length = frame
  offered : t.token ≠ .none → t.sent.length < t.transmitted.length + netBuffers
  writing : ∀ buffer length, t.token = .writing buffer length → buffer = Queue.slot t.sent.length

lemma Inv.new : new.Inv where
  counts := ⟨Queue.straight_prepared, ⟨le_rfl, Nat.zero_le _⟩, rfl, rfl⟩
  transmitted := List.prefix_rfl
  filled := fun _ _ _ h => by cases h
  offered := fun h => absurd rfl h
  writing := fun _ _ h => by cases h

lemma Inv.isFull_iff (h : t.Inv) :
    t.IsFull ↔ t.sent.length = t.transmitted.length + netBuffers := by
  rw [IsFull, h.counts.full_iff (by decide)]

/-- The buffer that is being written is none of the device. -/
lemma Inv.writing_notMem_owned (h : t.Inv) {buffer : Fin netBuffers} {length : ℕ}
    (hwriting : t.token = .writing buffer length) : buffer ∉ t.queue.owned := by
  rw [h.writing buffer length hwriting]
  refine h.counts.next_notMem_owned (by decide) (by decide) (h.offered ?_)
  rw [hwriting]
  exact TransmitToken.noConfusion

/-- A frame that the device has not transmitted is in a buffer of the device. -/
lemma Inv.slot_mem_owned (h : t.Inv) {k : ℕ} {frame : Frame} (hk : t.transmitted.length ≤ k)
    (hframe : t.sent[k]? = some frame) : Queue.slot k ∈ t.queue.owned := by
  rw [h.counts.mem_owned (by decide) (by decide)]
  exact ⟨k, hk, (List.getElem?_eq_some_iff.mp hframe).1, rfl⟩

lemma Inv.complete (h : t.Inv) (hnext : t.queue.HasNext) : t.complete.Inv := by
  have hlt := (h.counts.hasNext_iff (by decide)).mp hnext
  have hbuffer := h.counts.nextBuffer_eq (by decide)
  have hhead : (Queue.slot t.queue.head : Fin netBuffers) = Queue.slot t.transmitted.length := by
    rw [h.counts.straight.head_eq, Queue.slot_val, h.counts.used, Queue.slot_mod (by decide)]
  have hframe := List.getElem?_eq_getElem hlt
  obtain ⟨length, hlength, htake⟩ := h.filled _ _ le_rfl hframe
  refine ⟨?_, ?_, ?_, ?_, h.writing⟩
  · show (t.queue.complete 0).Counts (t.transmitted ++ [_]).length t.sent.length
    rw [List.length_append, List.length_singleton]
    exact h.counts.complete hlt 0
  · -- what is in the buffer is the frame that the driver has written
    show t.transmitted ++ [(t.buffers t.queue.nextBuffer).take
      ((t.queue.descriptors (Queue.slot t.queue.head)).length - headerSize)] <+: t.sent
    rw [hbuffer, hhead, hlength, Nat.add_sub_cancel_left, htake]
    exact BoundedQueue.prefix_append h.transmitted hframe
  · intro k frame hk hsent
    refine h.filled k frame ?_ hsent
    have hk : (t.transmitted ++ [_]).length ≤ k := hk
    rw [List.length_append, List.length_singleton] at hk
    omega
  · intro htoken
    show t.sent.length < (t.transmitted ++ [_]).length + netBuffers
    rw [List.length_append, List.length_singleton]
    exact (h.offered htoken).trans_le (Nat.add_le_add_right (Nat.le_succ _) _)

lemma Inv.consume (h : t.Inv) (hoffered : t.token = .offered) {length : ℕ}
    (hstep : t.consume length = .ok t') : t'.Inv := by
  obtain ⟨_, -, hstep⟩ := Checked.bind_eq_ok.mp hstep
  obtain rfl := Except.ok.inj hstep
  refine { h with offered := fun _ => h.offered ?_, writing := ?_ }
  · rw [hoffered]
    exact TransmitToken.noConfusion
  · rintro _ _ ⟨⟩
    rw [h.counts.available, Queue.slot_mod (by decide)]

lemma Inv.write (h : t.Inv) {buffer : Fin netBuffers} {length : ℕ}
    (hwriting : t.token = .writing buffer length) (content : Frame) :
    Inv { t with buffers := Function.update t.buffers buffer content } := by
  refine { h with filled := ?_ }
  intro k frame hk hframe
  have hne : Queue.slot k ≠ buffer := by
    rintro rfl
    exact h.writing_notMem_owned hwriting (h.slot_mem_owned hk hframe)
  obtain ⟨length', hlength, htake⟩ := h.filled k frame hk hframe
  refine ⟨length', hlength, ?_⟩
  show (Function.update t.buffers buffer content (Queue.slot k)).take length' = frame
  rw [Function.update_of_ne hne, htake]

lemma Inv.consumed (h : t.Inv) {buffer : Fin netBuffers} {length : ℕ}
    (hwriting : t.token = .writing buffer length) : (t.consumed buffer length).Inv := by
  have hroom := h.offered (by rw [hwriting]; exact TransmitToken.noConfusion)
  have hbuffer := h.writing buffer length hwriting
  have hne : ∀ {k frame}, t.transmitted.length ≤ k → t.sent[k]? = some frame →
      Queue.slot k ≠ buffer := by
    rintro k frame hk hframe rfl
    exact h.writing_notMem_owned hwriting (h.slot_mem_owned hk hframe)
  refine ⟨⟨⟨h.counts.straight.ring, ?_⟩, ?_, h.counts.used, ?_⟩, ?_, ?_,
    fun htoken => absurd rfl htoken, fun _ _ htoken => by cases htoken⟩
  · intro i
    show (Function.update t.queue.descriptors buffer _ i).buffer = i
    by_cases hi : i = buffer
    · rw [hi, Function.update_self]
      exact h.counts.straight.buffer buffer
    · rw [Function.update_of_ne hi]
      exact h.counts.straight.buffer i
  · show Window netBuffers t.transmitted.length (t.sent ++ [_]).length
    rw [List.length_append, List.length_singleton]
    exact h.counts.window.publish hroom
  · show (t.queue.available.index + 1) % 2 ^ 16 = (t.sent ++ [_]).length % 2 ^ 16
    rw [List.length_append, List.length_singleton, h.counts.available, Nat.mod_add_mod]
  · exact h.transmitted.trans (List.prefix_append _ _)
  · intro k frame hk hframe
    rw [Transmitter.consumed] at hframe
    show ∃ length', (Function.update t.queue.descriptors buffer _ (Queue.slot k)).length = _ ∧ _
    rcases Nat.lt_or_ge k t.sent.length with hold | hnew
    · rw [List.getElem?_append_left hold] at hframe
      rw [Function.update_of_ne (hne hk hframe)]
      exact h.filled k frame hk hframe
    · rw [List.getElem?_append_right hnew, List.getElem?_singleton] at hframe
      split at hframe
      · obtain rfl : k = t.sent.length := by omega
        obtain rfl := Option.some.inj hframe
        refine ⟨length, ?_, ?_⟩
        · rw [← hbuffer, Function.update_self]
        · rw [hbuffer]
          rfl
      · cases hframe

lemma Inv.step (h : t.Inv) (hstep : Step t t') : t'.Inv := by
  cases hstep with
  | complete hnext => exact h.complete hnext
  | consume length hoffered hconsume => exact h.consume hoffered hconsume
  | write frame hwriting hlen => exact h.write hwriting _
  | consumed hwriting => exact h.consumed hwriting
  | drop hoffered =>
      exact { h with
        offered := fun htoken => absurd rfl htoken
        writing := fun _ _ htoken => by cases htoken }

/-- A token for a buffer that is free. -/
lemma Inv.offer (h : t.Inv) (hroom : ¬ t.IsFull) : Inv { t with token := .offered } := by
  refine { h with offered := fun _ => ?_, writing := fun _ _ htoken => by cases htoken }
  have hbounded := h.counts.window.bounded
  rw [h.isFull_iff] at hroom
  exact lt_of_le_of_ne hbounded hroom

lemma Step.of_none (hstep : Step t t') (h : t.token = .none) : t'.token = .none := by
  cases hstep with
  | complete hnext => exact h
  | consume length hoffered hconsume =>
      rw [h] at hoffered
      cases hoffered
  | write frame hwriting hlen => exact h
  | consumed hwriting => rfl
  | drop hoffered => rfl

end Transmitter

/-! ## Both together -/

/-- `State` of the driver.  `receiving` is between the two checks of `receive`. -/
structure VirtioNet where
  rx : Receiver
  tx : Transmitter
  receiving : Bool

namespace VirtioNet

/-- `VirtioNet::new` -/
def new : VirtioNet := ⟨.new, .new, false⟩

/-- No token borrows the driver. -/
structure Idle (n : VirtioNet) : Prop where
  rx : n.rx.token = .none
  tx : n.tx.token = .none
  receiving : n.receiving = false

/-- What the driver, the holder of its tokens and the device do next.  A call of `receive` or
`transmit` that returns `None` at its first check changes nothing. -/
inductive Step : VirtioNet → VirtioNet → Prop
  | rx {n : VirtioNet} {rx : Receiver} (h : n.rx.Step rx) : Step n { n with rx := rx }
  | tx {n : VirtioNet} {tx : Transmitter} (h : n.tx.Step tx) : Step n { n with tx := tx }
  | receive {n : VirtioNet} (h : n.Idle) (hsome : ¬ n.rx.IsEmpty) :
      Step n { n with receiving := true }
  | receiveNone {n : VirtioNet} (h : n.receiving = true) (hfull : n.tx.IsFull) :
      Step n { n with receiving := false }
  | receiveSome {n : VirtioNet} (h : n.receiving = true) (hroom : ¬ n.tx.IsFull) :
      Step n ⟨{ n.rx with token := .offered }, { n.tx with token := .offered }, false⟩
  | transmit {n : VirtioNet} (h : n.Idle) (hroom : ¬ n.tx.IsFull) :
      Step n { n with tx := { n.tx with token := .offered } }

/-- The driver and the device have got here. -/
abbrev Reachable (n : VirtioNet) : Prop := Relation.ReflTransGen Step new n

variable {n n' : VirtioNet}

/-- Both halves, and what the first check of `receive` has found. -/
structure Inv (n : VirtioNet) : Prop where
  rx : n.rx.Inv
  tx : n.tx.Inv
  receiving : n.receiving = true →
    n.rx.token = .none ∧ n.tx.token = .none ∧ n.rx.handed.length < n.rx.received.length

lemma Inv.new : new.Inv := ⟨.new, .new, fun h => by cases h⟩

lemma Inv.step (h : n.Inv) (hstep : Step n n') : n'.Inv := by
  cases hstep with
  | rx hstep =>
      refine ⟨h.rx.step hstep, h.tx, fun hreceiving => ?_⟩
      obtain ⟨hrx, htx, hlt⟩ := h.receiving hreceiving
      obtain ⟨hrx', hhanded, hle⟩ := hstep.of_none hrx
      refine ⟨hrx', htx, ?_⟩
      rw [hhanded]
      exact hlt.trans_le hle
  | tx hstep =>
      refine ⟨h.rx, h.tx.step hstep, fun hreceiving => ?_⟩
      obtain ⟨hrx, htx, hlt⟩ := h.receiving hreceiving
      exact ⟨hrx, hstep.of_none htx, hlt⟩
  | receive hidle hsome =>
      refine ⟨h.rx, h.tx, fun _ => ⟨hidle.rx, hidle.tx, ?_⟩⟩
      rw [h.rx.isEmpty_iff] at hsome
      exact lt_of_le_of_ne h.rx.handed.length_le hsome
  | receiveNone hreceiving hfull => exact ⟨h.rx, h.tx, fun hnone => by cases hnone⟩
  | receiveSome hreceiving hroom =>
      exact ⟨h.rx.offer (h.receiving hreceiving).2.2, h.tx.offer hroom, fun hnone => by cases hnone⟩
  | transmit hidle hroom =>
      refine ⟨h.rx, h.tx.offer hroom, fun hreceiving => ?_⟩
      exact absurd (hidle.receiving.symm.trans hreceiving) Bool.false_ne_true

lemma Reachable.inv (h : n.Reachable) : n.Inv := by
  induction h with
  | refl => exact .new
  | tail _ hstep ih => exact ih.step hstep

/-- What the two sides can rely on. -/
structure Consistent (n : VirtioNet) : Prop where
  /-- tokens are consumed with the frames in the order in which these were received, each with the
  bytes that the device has written and the buffer that it has written them to -/
  handed : n.rx.handed <+: n.rx.received
  transmitted : n.tx.transmitted <+: n.tx.sent
  /-- a receive buffer is the device's or has a frame that is to be handed out -/
  owned : n.rx.queue.owned.length + (n.rx.received.length - n.rx.handed.length) = netBuffers
  /-- the checks before a token is offered -/
  isEmpty_iff : n.rx.IsEmpty ↔ n.rx.handed.length = n.rx.received.length
  isFull_iff : n.tx.IsFull ↔ n.tx.sent.length = n.tx.transmitted.length + netBuffers
  /-- a token that is out has a frame, or room for one -/
  received : n.rx.token ≠ .none → n.rx.handed.length < n.rx.received.length
  room : n.tx.token ≠ .none → n.tx.sent.length < n.tx.transmitted.length + netBuffers
  /-- a token can be consumed -/
  consume : n.rx.token = .offered → ∃ r, n.rx.consume = .ok r
  /-- the driver reads the next frame, and out of a buffer that is not the device's -/
  reading : ∀ buffer length, n.rx.token = .reading buffer length → buffer ∉ n.rx.queue.owned ∧
    n.rx.received[n.rx.handed.length]? = some (buffer, (n.rx.buffers buffer).take length)
  /-- the driver writes to a buffer that is not the device's -/
  writing : ∀ buffer length, n.tx.token = .writing buffer length → buffer ∉ n.tx.queue.owned

/-- **Buffers of network cards are never shared or lost.**  However the driver, the holder of its
tokens and the device take turns, and however far the indices have gone round: each received frame is
handed to one consumed token, in order and out of its own buffer, a token is offered exactly if there
is a received frame and room for an answer, and what the driver reads or writes is never a buffer that
the device owns. -/
theorem Reachable.consistent (h : n.Reachable) : n.Consistent where
  handed := h.inv.rx.handed
  transmitted := h.inv.tx.transmitted
  owned := h.inv.rx.owned_length
  isEmpty_iff := h.inv.rx.isEmpty_iff
  isFull_iff := h.inv.tx.isFull_iff
  received := h.inv.rx.offered
  room := h.inv.tx.offered
  consume := fun hoffered => by
    obtain ⟨x, -, hconsume⟩ := h.inv.rx.consume_eq hoffered
    exact ⟨_, hconsume⟩
  reading := fun _ _ hreading => h.inv.rx.reading_next hreading
  writing := fun _ _ hwriting => h.inv.tx.writing_notMem_owned hwriting

/-- A frame is received and handed out. -/
theorem Reachable.consistent_received :
    ∃ n : VirtioNet, n.rx.handed = [(0, [7])] ∧ n.Consistent := by
  have hrun := (Relation.ReflTransGen.refl (r := Step) (a := new)).tail
    (.rx (.complete [7] (by decide) (by decide)))
  have hrun := (hrun.tail (.receive ⟨rfl, rfl, rfl⟩ (by decide))).tail (.receiveSome rfl (by decide))
  have hrun := (hrun.tail (.rx (.consume rfl rfl))).tail (.rx (.consumed rfl))
  exact ⟨_, rfl, Reachable.consistent hrun⟩

end VirtioNet

end Deravel
