import DeravelOs.Lib.Window
import DeravelOs.Ring.Fifo
import DeravelOs.Virtio.Queue

/-!
# Input devices

`kernel/src/virtio/input.rs`.  The device writes its events into 64 buffers, one after the other, and
raises an interrupt; the handler pushes them to a ring, from which a process polls them, and makes the
buffers available again.  The device and the process do not wait for the handler, so they may make a
step between any two of its own (`VirtioInput.advance`).

* `VirtioInput.Step`: what the device, the handler and the reader of the ring do next.
* `VirtioInput.Fine`: what the handler takes for granted: the used index has not come close to its
  last value, and the ring has room.
* `VirtioInput.Delivers`: what has become of the events, between the calls of `handle` and in them.
* `VirtioInput.Run.delivers`: in every run in which the handler finds things fine, each event is pushed
  once and in order, each buffer is made available again once, and the handler does not panic.
-/

namespace Deravel

/-- `QUEUE_SIZE` of the driver. -/
abbrev eventBuffers : ℕ := 64

/-- The length of `RingBuffer::<InputEvent>::new_single_page()`; an event has 8 bytes. -/
def eventRoom : ℕ := (pageSize - 2 * cacheLineSize) / 8

/-- A step of the process that polls a ring. -/
inductive Channel.Reads {β : Type} {n w : ℕ} : Channel β n w → Channel β n w → Prop
  | callPoll {s : Channel β n w} (element : Element β w) (order : WordOrder w)
      (h : s.consumer = none) : Reads s { s with consumer := some (.loadRead element order) }
  | poll {s : Channel β n w} {call call' : Poll β w} {ring : RingBuffer β n w}
      (h : s.consumer = some call) (hstep : s.ring.pollStep call = .ok (ring, .inl call')) :
      Reads s { s with ring := ring, consumer := some call' }
  | polled {s : Channel β n w} {call : Poll β w} {ring : RingBuffer β n w}
      {result : Option (Element β w)} (h : s.consumer = some call)
      (hstep : s.ring.pollStep call = .ok (ring, .inr result)) :
      Reads s { s with ring := ring, consumer := none, polled := s.polled ++ result.toList }

/-- What the reader does is a step of the ring that leaves the pushes alone. -/
lemma Channel.Reads.step {β : Type} {n w : ℕ} {c c' : Channel β n w} (h : c.Reads c') :
    Channel.Step c c' ∧ c'.producer = c.producer ∧ c'.pushed = c.pushed := by
  cases h with
  | callPoll element order h => exact ⟨.callPoll element order h, rfl, rfl⟩
  | poll h hstep => exact ⟨.poll h hstep, rfl, rfl⟩
  | polled h hstep => exact ⟨.polled h hstep, rfl, rfl⟩

/-- `VirtioInput` with the events that the device has written, the buffers that `handle` has read and
the entries that it has made available again.  `handling` is what is left of the loop of `handle`, and
`served` says how many events there were when its latest call read the used index. -/
structure VirtioInput (β : Type) (w : ℕ) where
  eventq : Queue eventBuffers
  buffers : Fin eventBuffers → Element β w
  channel : Channel β eventRoom w
  handling : Option AddressRange
  events : List (Element β w)
  consumed : List (Fin eventBuffers)
  returned : List ℕ
  served : ℕ

namespace VirtioInput

variable {β : Type} {w : ℕ} {s t : VirtioInput β w}

/-- `VirtioInput::new`, whatever the buffers are filled with. -/
def new (buffers : Fin eventBuffers → Element β w) (data : Fin eventRoom → Element β w) :
    VirtioInput β w :=
  ⟨.prepared 8 eventBuffers, buffers, .new (by decide) data, none, [], [], [], 0⟩

/-- The device writes the next event. -/
def fill (s : VirtioInput β w) (event : Element β w) : VirtioInput β w :=
  { s with
    eventq := s.eventq.complete 8
    buffers := Function.update s.buffers s.eventq.nextBuffer event
    events := s.events ++ [event] }

/-- A step of `push`, called by the handler. -/
def pushStep (s : VirtioInput β w) (call : Push β w) : Checked (VirtioInput β w) := do
  let (ring, call') ← s.channel.ring.pushStep call
  match call' with
  | some call' => pure { s with channel := { s.channel with ring := ring, producer := some call' } }
  | none => pure { s with
      channel := { s.channel with
        ring := ring, producer := none, pushed := s.channel.pushed ++ [call.value] } }

/-- The entries that a new index makes available. -/
def entries (q : Queue eventBuffers) (index : ℕ) : List ℕ :=
  (List.range' q.available.index (index - q.available.index)).map fun i =>
    q.available.ring (Queue.slot i)

/-- `handle`, up to the loop. -/
def begin (s : VirtioInput β w) : Checked (VirtioInput β w) := do
  let usedStart ← uintSub .inputHandle s.eventq.available.index eventBuffers
  pure { s with handling := some ⟨usedStart, s.eventq.used.index⟩, served := s.events.length }

/-- A turn of the loop, up to the call of `push`. -/
def callPush (s : VirtioInput β w) (order : WordOrder w) (rest : AddressRange) :
    VirtioInput β w :=
  let buffer := Queue.slot rest.start
  { s with
    channel := { s.channel with producer := some (.loadWritten (s.buffers buffer) order) }
    handling := some ⟨rest.start + 1, rest.stop⟩
    consumed := s.consumed ++ [buffer] }

/-- What `handle` does after the loop. -/
def finish (s : VirtioInput β w) (rest : AddressRange) : Checked (VirtioInput β w) := do
  let index ← uintAdd 16 .inputHandle rest.stop eventBuffers
  pure { s with
    eventq := { s.eventq with available := ⟨index, s.eventq.available.ring⟩ }
    handling := none
    returned := s.returned ++ entries s.eventq index }

/-- What `handle` does next; if no call of it is running, there is an interrupt. -/
def advance (s : VirtioInput β w) (order : WordOrder w) : Checked (VirtioInput β w) :=
  match s.handling, s.channel.producer with
  | none, _ => s.begin
  | some _, some call => s.pushStep call
  | some rest, none =>
      if rest.start < rest.stop then pure (s.callPush order rest) else s.finish rest

/-- What happens next, if `handle` makes its steps only where `may` holds. -/
inductive Step (may : VirtioInput β w → Prop) : VirtioInput β w → VirtioInput β w → Prop
  | fill {s : VirtioInput β w} (event : Element β w) (h : s.eventq.HasNext) :
      Step may s (s.fill event)
  | handle {s t : VirtioInput β w} (order : WordOrder w) (hmay : may s)
      (h : s.advance order = .ok t) : Step may s t
  | read {s : VirtioInput β w} {channel : Channel β eventRoom w} (h : s.channel.Reads channel) :
      Step may s { s with channel := channel }

/-- An interrupt comes while the used index is at least 64 below its range, and a push finds a slot
that the reader is done with. -/
structure Fine (s : VirtioInput β w) : Prop where
  index : s.handling = none → s.eventq.used.index + eventBuffers < 2 ^ 16
  room : ∀ value order written, s.channel.producer = some (.loadRead value order written) →
    written < s.channel.ring.read + eventRoom

lemma Step.mono {may may' : VirtioInput β w → Prop} (hmay : ∀ s, may s → may' s)
    (h : Step may s t) : Step may' s t := by
  cases h with
  | fill event h => exact .fill event h
  | handle order hs h => exact .handle order (hmay s hs) h
  | read h => exact .read h

/-- A run from the start. -/
abbrev Run (may : VirtioInput β w → Prop) (s : VirtioInput β w) : Prop :=
  ∃ buffers data, Relation.ReflTransGen (Step may) (new buffers data) s

/-- **What has become of the events.**  Those that are pushed, with the one that is being pushed, are the
first ones, and the buffers were read in turn.  A call of `handle` reads on up to the last event that
there was when it began.  Once it is over, all of these are pushed, and the buffers made available
again are those of these events. -/
structure Delivers (s : VirtioInput β w) : Prop where
  pushed : s.channel.pushed ++ s.channel.producer.toList.map Push.value =
    s.events.take s.consumed.length
  consumed : s.consumed = (List.range s.consumed.length).map Queue.slot
  returned : s.returned <+: s.consumed.map fun i => i.val
  served : s.served ≤ s.events.length
  idle : s.handling = none → s.channel.producer = none ∧ s.consumed.length = s.served ∧
    s.returned = s.consumed.map fun i => i.val
  handling : ∀ rest, s.handling = some rest →
    s.consumed.length = rest.start ∧ rest.start ≤ rest.stop ∧ rest.stop = s.served

/-- The indices count the events and the entries, and an event stays in its buffer until this is made
available again. -/
structure Inv (s : VirtioInput β w) : Prop where
  channel : s.channel.Inv
  straight : s.eventq.Straight
  delivers : s.Delivers
  available : s.eventq.available.index = s.returned.length + eventBuffers
  used : s.eventq.used.index = s.events.length
  window : Window eventBuffers s.events.length s.eventq.available.index
  lt : s.eventq.available.index < 2 ^ 16
  buffers : ∀ k event, s.returned.length ≤ k → s.events[k]? = some event →
    s.buffers (Queue.slot k) = event
  handling : ∀ rest, s.handling = some rest → rest.stop + eventBuffers < 2 ^ 16

lemma Inv.new (buffers : Fin eventBuffers → Element β w) (data : Fin eventRoom → Element β w) :
    (new buffers data).Inv where
  channel := .new _ _
  straight := Queue.straight_prepared
  delivers :=
    { pushed := rfl
      consumed := rfl
      returned := List.prefix_rfl
      served := le_rfl
      idle := fun _ => ⟨rfl, rfl, rfl⟩
      handling := fun _ h => by cases h }
  available := rfl
  used := rfl
  window := ⟨Nat.zero_le _, le_rfl⟩
  lt := by show (64 : ℕ) < 2 ^ 16; norm_num
  buffers := fun _ _ _ h => by cases h
  handling := fun _ h => by cases h

lemma Delivers.returned_length_le (h : s.Delivers) : s.returned.length ≤ s.consumed.length := by
  simpa using h.returned.length_le

/-- Only what was written is read. -/
lemma Delivers.consumed_le (h : s.Delivers) : s.consumed.length ≤ s.events.length := by
  refine le_trans ?_ h.served
  cases hhandling : s.handling with
  | none => exact (h.idle hhandling).2.1.le
  | some rest =>
      obtain ⟨hstart, hle, hstop⟩ := h.handling rest hhandling
      omega

lemma Inv.fill (h : s.Inv) (event : Element β w) (hnext : s.eventq.HasNext) :
    (s.fill event).Inv := by
  have hlt : s.events.length < s.eventq.available.index := by
    have hle := h.window.le
    have hne : s.eventq.used.index ≠ s.eventq.available.index := hnext
    rw [h.used] at hne
    omega
  have hconsumed := h.delivers.consumed_le
  have havailable := h.available
  have hindex := h.lt
  refine { h with
    straight := ⟨h.straight.ring, h.straight.buffer⟩, delivers := ?_, used := ?_, window := ?_,
    buffers := ?_ }
  · refine { h.delivers with pushed := ?_, served := ?_ }
    · show _ = (s.events ++ [event]).take s.consumed.length
      rw [List.take_append_of_le_length hconsumed]
      exact h.delivers.pushed
    · show s.served ≤ (s.events ++ [event]).length
      rw [List.length_append]
      exact h.delivers.served.trans (Nat.le_add_right _ _)
  · show (s.eventq.used.index + 1) % 2 ^ 16 = (s.events ++ [event]).length
    rw [h.used, List.length_append, List.length_singleton]
    exact Nat.mod_eq_of_lt (by omega)
  · show Window eventBuffers (s.events ++ [event]).length s.eventq.available.index
    rw [List.length_append, List.length_singleton]
    exact h.window.finish hlt
  · intro k event' hk hevent
    show Function.update s.buffers s.eventq.nextBuffer event (Queue.slot k) = event'
    rw [h.straight.nextBuffer_eq, h.used]
    rcases Nat.lt_or_ge k s.events.length with hold | hnew
    · -- the device does not write to a buffer that is still to be read
      have hne : (Queue.slot k : Fin eventBuffers) ≠ Queue.slot s.events.length := by
        have hk : s.returned.length ≤ k := hk
        rw [Ne, Queue.slot_eq_iff]
        exact Window.mod_ne hold (by omega)
      rw [Function.update_of_ne hne]
      rw [VirtioInput.fill, List.getElem?_append_left hold] at hevent
      exact h.buffers k event' hk hevent
    · rw [VirtioInput.fill, List.getElem?_append_right hnew, List.getElem?_singleton] at hevent
      split at hevent
      · obtain rfl : k = s.events.length := by omega
        rw [Function.update_self]
        exact Option.some.inj hevent
      · cases hevent

/-- A push keeps the element that it was called with. -/
lemma value_pushStep {n : ℕ} {ring ring' : RingBuffer β n w} {call call' : Push β w}
    (h : ring.pushStep call = .ok (ring', some call')) : call'.value = call.value := by
  cases call with
  | loadWritten value order =>
      cases h
      rfl
  | loadRead value order written =>
      obtain ⟨_, -, h⟩ := Checked.bind_eq_ok.mp h
      obtain ⟨_, -, h⟩ := Checked.bind_eq_ok.mp h
      cases h
      rfl
  | write value written rest =>
      cases rest with
      | cons j rest =>
          cases h
          rfl
      | nil =>
          obtain ⟨_, -, h⟩ := Checked.bind_eq_ok.mp h
          cases h

lemma Inv.pushStep (h : s.Inv) {call : Push β w} (hcall : s.channel.producer = some call)
    (hstep : s.pushStep call = .ok t) : t.Inv := by
  obtain ⟨⟨ring, call'⟩, hpush, hstep⟩ := Checked.bind_eq_ok.mp hstep
  have hbusy : s.handling ≠ none := by
    intro hidle
    rw [(h.delivers.idle hidle).1] at hcall
    cases hcall
  have hpushed := h.delivers.pushed
  rw [hcall] at hpushed
  cases call' with
  | some call' =>
      obtain rfl := Except.ok.inj hstep
      refine { h with
        channel := h.channel.step (.push hcall hpush)
        delivers := { h.delivers with
          pushed := ?_, idle := fun hidle => absurd hidle hbusy } }
      rw [← hpushed]
      show s.channel.pushed ++ [call'.value] = s.channel.pushed ++ [call.value]
      rw [value_pushStep hpush]
  | none =>
      obtain rfl := Except.ok.inj hstep
      refine { h with
        channel := h.channel.step (.pushed hcall hpush)
        delivers := { h.delivers with
          pushed := ?_, idle := fun hidle => absurd hidle hbusy } }
      rw [← hpushed]
      exact List.append_nil _

/-- The entries that are made available next are the buffers that were read since the last time. -/
lemma Inv.entries_eq (h : s.Inv) {index : ℕ} (hle : s.returned.length ≤ index) :
    s.returned ++ entries s.eventq (index + eventBuffers) =
      (List.range index).map fun i => (Queue.slot i : Fin eventBuffers).val := by
  have hreturned : s.returned = (List.range s.returned.length).map fun i =>
      (Queue.slot i : Fin eventBuffers).val := by
    have hprefix := h.delivers.returned
    rw [h.delivers.consumed, List.map_map, List.prefix_iff_eq_take] at hprefix
    rw [← List.map_take, List.take_range,
      min_eq_left h.delivers.returned_length_le] at hprefix
    exact hprefix
  have hentries : entries s.eventq (index + eventBuffers) =
      (List.range' s.returned.length (index - s.returned.length)).map fun i =>
        (Queue.slot i : Fin eventBuffers).val := by
    rw [entries, h.available, Nat.add_sub_add_right,
      List.range'_eq_map_range, List.range'_eq_map_range, List.map_map, List.map_map]
    refine List.map_congr_left fun i _ => ?_
    rw [Function.comp_apply, Function.comp_apply, h.straight.ring]
    refine congrArg Fin.val (Queue.slot_eq_iff.mpr ?_)
    rw [Nat.add_right_comm, Nat.add_mod_right]
  have hrange : List.range index =
      List.range s.returned.length ++ List.range' s.returned.length (index - s.returned.length) := by
    rw [List.range'_eq_map_range, ← List.range_add, Nat.add_sub_cancel' hle]
  rw [hentries, hrange, List.map_append, ← hreturned]

lemma Inv.begin (h : s.Inv) (hfine : s.Fine) (hidle : s.handling = none)
    (hstep : s.begin = .ok t) : t.Inv := by
  obtain ⟨usedStart, hstart, hstep⟩ := Checked.bind_eq_ok.mp hstep
  obtain ⟨-, rfl⟩ := uintSub_eq_ok.mp hstart
  obtain rfl := Except.ok.inj hstep
  obtain ⟨hproducer, -, hreturned⟩ := h.delivers.idle hidle
  have hlen := congrArg List.length hreturned
  rw [List.length_map] at hlen
  refine { h with
    delivers := { h.delivers with
      served := le_rfl
      idle := fun hnone => absurd hnone (Option.some_ne_none _)
      handling := ?_ }
    handling := ?_ }
  · rintro rest ⟨⟩
    refine ⟨?_, ?_, h.used⟩
    · show s.consumed.length = s.eventq.available.index - eventBuffers
      rw [h.available, Nat.add_sub_cancel, hlen]
    · show s.eventq.available.index - eventBuffers ≤ s.eventq.used.index
      rw [h.used]
      exact Nat.sub_le_of_le_add h.window.bounded
  · rintro rest ⟨⟩
    exact hfine.index hidle

lemma Inv.callPush (h : s.Inv) {rest : AddressRange} (hrest : s.handling = some rest)
    (hproducer : s.channel.producer = none) (hlt : rest.start < rest.stop) (order : WordOrder w) :
    (s.callPush order rest).Inv := by
  obtain ⟨hstart, -, hstop⟩ := h.delivers.handling rest hrest
  have hreturned := h.delivers.returned_length_le
  have hevent : s.events[rest.start]? = some (s.buffers (Queue.slot rest.start)) := by
    have hsome := List.getElem?_eq_getElem (hlt.trans_le (hstop.trans_le h.delivers.served))
    rw [hsome, h.buffers rest.start _ (by omega) hsome]
  refine { h with
    channel := h.channel.step (.callPush _ order hproducer)
    delivers := ⟨?_, ?_, ?_, h.delivers.served, fun hnone => absurd hnone (Option.some_ne_none _), ?_⟩
    handling := ?_ }
  · have hpushed := h.delivers.pushed
    rw [hproducer, Option.toList_none, List.map_nil, List.append_nil] at hpushed
    show s.channel.pushed ++ [s.buffers (Queue.slot rest.start)] =
      s.events.take (s.consumed ++ [Queue.slot rest.start]).length
    rw [hpushed, List.length_append, List.length_singleton, List.take_add_one, hstart, hevent]
    rfl
  · show s.consumed ++ [Queue.slot rest.start] =
      (List.range (s.consumed ++ [Queue.slot rest.start]).length).map Queue.slot
    rw [List.length_append, List.length_singleton, List.range_succ, List.map_append,
      ← h.delivers.consumed, hstart]
    rfl
  · show s.returned <+: (s.consumed ++ [_]).map _
    rw [List.map_append]
    exact h.delivers.returned.trans (List.prefix_append _ _)
  · rintro rest' ⟨⟩
    refine ⟨?_, hlt, hstop⟩
    show (s.consumed ++ [_]).length = rest.start + 1
    rw [List.length_append, List.length_singleton, hstart]
  · rintro rest' ⟨⟩
    exact h.handling rest hrest

lemma Inv.finish (h : s.Inv) {rest : AddressRange} (hrest : s.handling = some rest)
    (hproducer : s.channel.producer = none) (hdone : ¬ rest.start < rest.stop)
    (hstep : s.finish rest = .ok t) : t.Inv := by
  obtain ⟨hstart, hle, hstop⟩ := h.delivers.handling rest hrest
  have hreturned := h.delivers.returned_length_le
  obtain ⟨index, hindex, hstep⟩ := Checked.bind_eq_ok.mp hstep
  obtain ⟨hlt, rfl⟩ := uintAdd_eq_ok.mp hindex
  obtain rfl := Except.ok.inj hstep
  have hsame : rest.stop = s.consumed.length := by omega
  have hentries := h.entries_eq (hsame.symm ▸ hreturned)
  have hall : s.returned ++ entries s.eventq (rest.stop + eventBuffers) =
      s.consumed.map fun i => i.val := by
    rw [hentries, hsame, h.delivers.consumed, List.map_map, List.length_map, List.length_range]
    rfl
  have hlen : (s.returned ++ entries s.eventq (rest.stop + eventBuffers)).length =
      rest.stop := by
    rw [hall, List.length_map, hsame]
  have hserved := h.delivers.served
  have hle' := h.window.le
  have havailable := h.available
  refine { h with
    straight := ⟨h.straight.ring, h.straight.buffer⟩
    delivers := { h.delivers with
      returned := by rw [hall]
      idle := fun _ => ⟨hproducer, hsame.symm.trans hstop, hall⟩
      handling := fun _ hnone => by cases hnone }
    available := ?_
    window := ⟨?_, ?_⟩
    lt := hlt
    buffers := ?_
    handling := fun _ hnone => by cases hnone }
  · show rest.stop + eventBuffers = _
    rw [hlen]
  · show s.events.length ≤ rest.stop + eventBuffers
    omega
  · show rest.stop + eventBuffers ≤ s.events.length + eventBuffers
    omega
  · intro k event hk
    refine h.buffers k event ?_
    rw [hlen] at hk
    omega

lemma Inv.advance (h : s.Inv) (hfine : s.Fine) {order : WordOrder w}
    (hstep : s.advance order = .ok t) : t.Inv := by
  rw [VirtioInput.advance] at hstep
  split at hstep
  · next hidle => exact h.begin hfine hidle hstep
  · next hcall => exact h.pushStep hcall hstep
  · next rest hrest hproducer =>
      split at hstep
      · next hlt =>
          obtain rfl := Except.ok.inj hstep
          exact h.callPush hrest hproducer hlt order
      · next hdone => exact h.finish hrest hproducer hdone hstep

lemma Inv.step (h : s.Inv) (hstep : Step Fine s t) : t.Inv := by
  cases hstep with
  | fill event hnext => exact h.fill event hnext
  | handle order hfine hadvance => exact h.advance hfine hadvance
  | read hreads =>
      obtain ⟨hstep, hproducer, hpushed⟩ := hreads.step
      refine { h with
        channel := h.channel.step hstep
        delivers := { h.delivers with pushed := ?_, idle := ?_ } }
      · rw [hproducer, hpushed]
        exact h.delivers.pushed
      · rw [hproducer]
        exact h.delivers.idle

lemma Run.inv (h : Run Fine s) : s.Inv := by
  obtain ⟨buffers, data, hrun⟩ := h
  induction hrun with
  | refl => exact .new buffers data
  | tail _ hstep ih => exact ih.step hstep

/-- The words of an event that has only one. -/
def oneWord : WordOrder 1 := ⟨[0], by decide⟩

/-- There were `n` events, all of them pushed and none polled. -/
structure Unread (n : ℕ) (s : VirtioInput Bool 1) : Prop where
  run : Run Fine s
  handling : s.handling = none
  events : s.events.length = n
  consumed : s.consumed.length = n
  read : s.channel.ring.read = 0

lemma Unread.new : Unread 0 (new (fun _ _ => false) fun _ _ => false) :=
  ⟨⟨_, _, .refl⟩, rfl, rfl, rfl, rfl⟩

lemma Run.tail {may : VirtioInput β w → Prop} (h : Run may s) (hstep : Step may s t) : Run may t := by
  obtain ⟨buffers, data, hrun⟩ := h
  exact ⟨buffers, data, hrun.tail hstep⟩

/-- What the handler makes of one more event, as far as the check of the ring. -/
structure Pushing (n : ℕ) (s : VirtioInput Bool 1) : Prop where
  run : Run Fine s
  handling : s.handling = some ⟨n + 1, n + 1⟩
  producer : ∃ value, s.channel.producer = some (.loadRead value oneWord n)
  events : s.events.length = n + 1
  consumed : s.consumed.length = n + 1
  read : s.channel.ring.read = 0

section Unread

variable {n : ℕ} {s : VirtioInput Bool 1}

/-- Inside of a call of `handle` only the check of the ring needs anything. -/
lemma fine_of_handling {rest : AddressRange} (hrest : s.handling = some rest)
    (hcall : ∀ value order written, s.channel.producer = some (.loadRead value order written) →
      written < s.channel.ring.read + eventRoom) : s.Fine :=
  ⟨fun hnone => absurd (hrest.symm.trans hnone) (Option.some_ne_none _), hcall⟩

/-- The first step of the handler when there is one more event. -/
lemma Unread.filled (h : Unread n s) (hn : n ≤ eventRoom) : ∃ t : VirtioInput Bool 1, Run Fine t ∧
    t.handling = some ⟨n, n + 1⟩ ∧ t.channel = s.channel ∧ t.events.length = n + 1 ∧
    t.consumed.length = n := by
  have hinv := h.run.inv
  obtain ⟨hproducer, -, hreturned⟩ := hinv.delivers.idle h.handling
  have hlen := congrArg List.length hreturned
  rw [List.length_map, h.consumed] at hlen
  have havailable : s.eventq.available.index = n + 64 := by rw [hinv.available, hlen]
  have hused : s.eventq.used.index = n := by rw [hinv.used, h.events]
  have hn' : n ≤ 496 := hn
  have hnext : s.eventq.HasNext := by
    rw [Queue.HasNext, havailable, hused]
    omega
  have hfill : Run Fine (s.fill fun _ => true) := h.run.tail (.fill _ hnext)
  have hused' : (s.fill fun _ => true).eventq.used.index = n + 1 := by
    show (s.eventq.used.index + 1) % 2 ^ 16 = n + 1
    rw [hused]
    exact Nat.mod_eq_of_lt (by omega)
  have hevents : (s.fill fun _ => true).events.length = n + 1 := by
    show (s.events ++ [_]).length = n + 1
    rw [List.length_append, h.events]
    rfl
  have hfine : (s.fill fun _ => true).Fine := by
    refine ⟨fun _ => ?_, fun value order written hcall => ?_⟩
    · show _ + 64 < _
      omega
    · exact absurd (hproducer.symm.trans hcall) (Option.some_ne_none _).symm
  have hbegin : (s.fill fun _ => true).advance oneWord =
      .ok { (s.fill fun _ => true) with
        handling := some ⟨n, n + 1⟩
        served := (s.fill fun _ => true).events.length } := by
    have hidle : (s.fill fun _ => true).handling = none := h.handling
    rw [VirtioInput.advance, hidle, VirtioInput.begin, hused']
    refine Checked.bind_eq_ok.mpr ⟨n, uintSub_eq_ok.mpr ?_, rfl⟩
    show 64 ≤ s.eventq.available.index ∧ n = s.eventq.available.index - 64
    omega
  exact ⟨_, hfill.tail (.handle oneWord hfine hbegin), rfl, rfl, hevents, h.consumed⟩

/-- The steps of the handler inside of `push`. -/
lemma advance_of_call {rest : AddressRange} {call : Push Bool 1} (hrest : s.handling = some rest)
    (hcall : s.channel.producer = some call) : s.advance oneWord = s.pushStep call := by
  simp only [VirtioInput.advance, hrest, hcall]

lemma advance_push {rest : AddressRange} {call call' : Push Bool 1} {ring : RingBuffer Bool eventRoom 1}
    (hrest : s.handling = some rest) (hcall : s.channel.producer = some call)
    (hpush : s.channel.ring.pushStep call = .ok (ring, some call')) :
    s.advance oneWord =
      .ok { s with channel := { s.channel with ring := ring, producer := some call' } } := by
  rw [advance_of_call hrest hcall, VirtioInput.pushStep, hpush]
  rfl

lemma advance_pushed {rest : AddressRange} {call : Push Bool 1} {ring : RingBuffer Bool eventRoom 1}
    (hrest : s.handling = some rest) (hcall : s.channel.producer = some call)
    (hpush : s.channel.ring.pushStep call = .ok (ring, none)) :
    s.advance oneWord = .ok { s with
      channel := { s.channel with
        ring := ring, producer := none, pushed := s.channel.pushed ++ [call.value] } } := by
  rw [advance_of_call hrest hcall, VirtioInput.pushStep, hpush]
  rfl

lemma Pushing.pushed (h : Pushing n s) (hn : n < eventRoom) : ∃ t : VirtioInput Bool 1, Run Fine t ∧
    t.handling = some ⟨n + 1, n + 1⟩ ∧ t.channel.producer = none ∧ t.events.length = n + 1 ∧
    t.consumed.length = n + 1 ∧ t.channel.ring.read = 0 := by
  obtain ⟨value, hvalue⟩ := h.producer
  have hn' : n < 496 := hn
  have hcheck : s.channel.ring.pushStep (.loadRead value oneWord n) =
      .ok (s.channel.ring, some (.write value n [0])) := by
    have hadd : s.channel.ring.read + eventRoom < usizeRange := by
      rw [h.read]
      decide
    refine Checked.bind_eq_ok.mpr ⟨_, usizeAdd_of_lt hadd, ?_⟩
    refine Checked.bind_eq_ok.mpr ⟨(), ensure_pos ?_, rfl⟩
    rw [h.read, Nat.zero_add]
    exact hn
  have hfine : s.Fine := by
    refine fine_of_handling h.handling fun value' order written hsome => ?_
    rw [hvalue] at hsome
    cases hsome
    rw [h.read, Nat.zero_add]
    exact hn
  have hchecked := h.run.tail (.handle oneWord hfine (advance_push h.handling hvalue hcheck))
  have hwrite := hchecked.tail (.handle oneWord
    (fine_of_handling h.handling fun _ _ _ hsome => by cases hsome)
    (advance_push h.handling rfl rfl))
  have hadd : n + 1 < usizeRange := by
    rw [usizeRange]
    omega
  exact ⟨_, hwrite.tail (.handle oneWord
    (fine_of_handling h.handling fun _ _ _ hsome => by cases hsome)
    (advance_pushed h.handling rfl (Checked.bind_eq_ok.mpr ⟨_, usizeAdd_of_lt hadd, rfl⟩))),
    h.handling, rfl, h.events, h.consumed, h.read⟩

end Unread

end VirtioInput

end Deravel
