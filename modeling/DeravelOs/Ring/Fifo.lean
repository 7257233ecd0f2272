import DeravelOs.Lib.BoundedQueue
import DeravelOs.Ring.RingBuffer

/-!
# Ring buffers are queues

Each side of a ring knows one counter, its own; of the other one it has an old value, which is not
greater than the new one.  That is enough:

* the producer has seen room, and the consumer can only make more of it;
* the consumer has seen an element, and the producer does not touch it before it is polled.

`Channel.Inv` says so of every call, and `Channel.fifo` follows from it.
-/

namespace Deravel

open BoundedQueue (Queue)

variable {β : Type} {n w : ℕ}

namespace RingBuffer

variable {ring : RingBuffer β n w} {i j : ℕ}

/-- Two counts that differ by less than the number of elements have different slots. -/
lemma slot_ne (hij : i < j) (hroom : j < i + n) : ring.slot i ≠ ring.slot j := by
  intro heq
  have hmod : i % n = j % n := congrArg Fin.val heq
  obtain ⟨d, rfl⟩ := Nat.exists_eq_add_of_lt hij
  have hdvd : n ∣ i + d + 1 - i := (Nat.modEq_iff_dvd' (by omega)).mp hmod
  have hle := Nat.le_of_dvd (by omega) hdvd
  omega

lemma setWord_data_same (k : Fin n) (l : Fin w) (word : β) :
    (ring.setWord k l word).data k = Function.update (ring.data k) l word :=
  Function.update_self _ _ _

lemma setWord_data_other {k m : Fin n} (h : m ≠ k) (l : Fin w) (word : β) :
    (ring.setWord k l word).data m = ring.data m := Function.update_of_ne h _ _

end RingBuffer

/-! ## The invariant -/

/-- What a call of `push` knows: the elements are written up to `written`, and the slot after them
is free. -/
def Push.Inv (ring : RingBuffer β n w) : Push β w → Prop
  | .loadWritten _ _ => True
  | .loadRead _ _ written => written = ring.written
  | .write value written rest => written = ring.written ∧ written < ring.read + n ∧
      ∀ j ∉ rest, ring.data (ring.slot written) j = value j

/-- What a call of `poll` knows: which element is the next, and that it was pushed. -/
def Poll.Inv (ring : RingBuffer β n w) (pushed : List (Element β w)) : Poll β w → Prop
  | .loadRead _ _ => True
  | .loadWritten _ _ read => read = ring.read
  | .copy element read rest => read = ring.read ∧
      ∃ value, pushed[read]? = some value ∧ ∀ j ∉ rest, element j = value j

namespace Channel

variable {s s' : Channel β n w}

/-- The queue that a ring implements. -/
def queue (s : Channel β n w) : Queue (Element β w) := ⟨s.pushed, s.polled⟩

/-- The ring has done what its queue can do, the counters count the elements, and the slots from
`read` on hold what was pushed. -/
structure Inv (s : Channel β n w) : Prop where
  queue : BoundedQueue.Run n ⟨[], []⟩ s.queue
  written : s.pushed.length = s.ring.written
  read : s.polled.length = s.ring.read
  data : ∀ i value, s.ring.read ≤ i → s.pushed[i]? = some value →
    s.ring.data (s.ring.slot i) = value
  producer : ∀ call ∈ s.producer, call.Inv s.ring
  consumer : ∀ call ∈ s.consumer, call.Inv s.ring s.pushed

lemma Inv.new (pos : 0 < n) (data : Fin n → Element β w) : Inv (.new pos data) where
  queue := .refl
  written := rfl
  read := rfl
  data := by simp [Channel.new]
  producer := by simp [Channel.new]
  consumer := by simp [Channel.new]

/-- What holds of bounded queues holds of rings. -/
lemma Inv.queue_inv (h : s.Inv) : BoundedQueue.Inv n s.queue := BoundedQueue.Run.inv h.queue .empty

/-- An element that was pushed has an index below `written`. -/
lemma Inv.lt_written (h : s.Inv) {i : ℕ} {value : Element β w}
    (hi : s.pushed[i]? = some value) : i < s.ring.written := by
  rw [← h.written]
  exact (List.getElem?_eq_some_iff.mp hi).1

/-! ## The producer -/

lemma Inv.push (h : s.Inv) {call call' : Push β w} {ring : RingBuffer β n w}
    (hcall : s.producer = some call) (hstep : s.ring.pushStep call = .ok (ring, some call')) :
    Inv { s with ring := ring, producer := some call' } := by
  have hinv : call.Inv s.ring := h.producer call hcall
  cases call with
  | loadWritten value order =>
      cases hstep
      refine { h with producer := ?_ }
      intro call hmem
      cases hmem
      exact rfl
  | loadRead value order written =>
      obtain ⟨full, hfull, hstep⟩ := Checked.bind_eq_ok.mp hstep
      obtain ⟨u, hroom, hstep⟩ := Checked.bind_eq_ok.mp hstep
      cases hstep
      have hlt : written < s.ring.read + n := by
        rw [← usizeAdd_eq_ok hfull]
        exact ensure_eq_ok hroom
      refine { h with producer := ?_ }
      intro call hmem
      cases hmem
      exact ⟨hinv, hlt, fun j hj => absurd (order.complete j) hj⟩
  | write value written rest =>
      cases rest with
      | nil =>
          obtain ⟨next, -, hstep⟩ := Checked.bind_eq_ok.mp hstep
          cases hstep
      | cons j rest =>
          obtain ⟨rfl, hroom, hwritten⟩ := hinv
          cases hstep
          refine ⟨h.queue, h.written, h.read, ?_, ?_, h.consumer⟩
          · -- the slot that is written to is none of those that hold elements
            intro i value' hread hi
            have hne : s.ring.slot i ≠ s.ring.slot s.ring.written := by
              have hread : s.ring.read ≤ i := hread
              exact RingBuffer.slot_ne (h.lt_written hi) (by omega)
            exact (RingBuffer.setWord_data_other hne _ _).trans (h.data i value' hread hi)
          · intro call hmem
            cases hmem
            refine ⟨rfl, hroom, fun l hl => ?_⟩
            show (s.ring.setWord _ _ _).data (s.ring.slot s.ring.written) l = value l
            rw [RingBuffer.setWord_data_same]
            by_cases hlj : l = j
            · rw [hlj, Function.update_self]
            · rw [Function.update_of_ne hlj]
              exact hwritten l (by simp [hlj, hl])

lemma Inv.pushed (h : s.Inv) {call : Push β w} {ring : RingBuffer β n w}
    (hcall : s.producer = some call) (hstep : s.ring.pushStep call = .ok (ring, none)) :
    Inv { s with ring := ring, producer := none, pushed := s.pushed ++ [call.value] } := by
  have hinv : call.Inv s.ring := h.producer call hcall
  cases call with
  | loadWritten value order => cases hstep
  | loadRead value order written =>
      obtain ⟨full, -, hstep⟩ := Checked.bind_eq_ok.mp hstep
      obtain ⟨u, -, hstep⟩ := Checked.bind_eq_ok.mp hstep
      cases hstep
  | write value written rest =>
      cases rest with
      | cons j rest => cases hstep
      | nil =>
          obtain ⟨rfl, hroom, hwritten⟩ := hinv
          obtain ⟨next, hnext, hstep⟩ := Checked.bind_eq_ok.mp hstep
          cases hstep
          have hnext : next = s.ring.written + 1 := usizeAdd_eq_ok hnext
          have hdata : s.ring.data (s.ring.slot s.ring.written) = value := by
            funext j
            exact hwritten j List.not_mem_nil
          refine ⟨h.queue.tail (.push value ?_), ?_, h.read, ?_, by simp, ?_⟩
          · show s.pushed.length < s.polled.length + n
            rwa [h.written, h.read]
          · simp [hnext, h.written]
          · intro i value' hread hi
            rcases Nat.lt_or_ge i s.pushed.length with hlt | hge
            · rw [List.getElem?_append_left hlt] at hi
              exact h.data i value' hread hi
            · rw [List.getElem?_append_right hge, List.getElem?_singleton] at hi
              split at hi
              · next hlast =>
                  cases hi
                  have hi : i = s.ring.written := by
                    rw [← h.written]
                    omega
                  rw [hi]
                  exact hdata
              · cases hi
          · intro call hmem
            have hpoll := h.consumer call hmem
            cases call with
            | loadRead element order => trivial
            | loadWritten element order read => exact hpoll
            | copy element read rest =>
                obtain ⟨hread, value', hvalue, hcopied⟩ := hpoll
                have hlt := (List.getElem?_eq_some_iff.mp hvalue).1
                exact ⟨hread, value', by rwa [List.getElem?_append_left hlt], hcopied⟩

/-! ## The consumer -/

lemma Inv.poll (h : s.Inv) {call call' : Poll β w} {ring : RingBuffer β n w}
    (hcall : s.consumer = some call) (hstep : s.ring.pollStep call = .ok (ring, .inl call')) :
    Inv { s with ring := ring, consumer := some call' } := by
  have hinv : call.Inv s.ring s.pushed := h.consumer call hcall
  cases call with
  | loadRead element order =>
      cases hstep
      refine { h with consumer := ?_ }
      intro call hmem
      cases hmem
      exact rfl
  | loadWritten element order read =>
      rw [RingBuffer.pollStep] at hstep
      split at hstep
      · cases hstep
      · next hlt =>
          cases hstep
          obtain rfl : read = s.ring.read := hinv
          have hsome : s.ring.read < s.pushed.length := by
            rw [h.written]
            omega
          refine { h with consumer := ?_ }
          intro call hmem
          cases hmem
          exact ⟨rfl, _, List.getElem?_eq_getElem hsome,
            fun j hj => absurd (order.complete j) hj⟩
  | copy element read rest =>
      cases rest with
      | nil =>
          obtain ⟨next, -, hstep⟩ := Checked.bind_eq_ok.mp hstep
          cases hstep
      | cons j rest =>
          obtain ⟨rfl, value, hvalue, hcopied⟩ := hinv
          cases hstep
          refine { h with consumer := ?_ }
          intro call hmem
          cases hmem
          refine ⟨rfl, value, hvalue, fun l hl => ?_⟩
          by_cases hlj : l = j
          · rw [hlj, Function.update_self, h.data _ value le_rfl hvalue]
          · rw [Function.update_of_ne hlj]
            exact hcopied l (by simp [hlj, hl])

lemma Inv.polled (h : s.Inv) {call : Poll β w} {ring : RingBuffer β n w}
    {result : Option (Element β w)} (hcall : s.consumer = some call)
    (hstep : s.ring.pollStep call = .ok (ring, .inr result)) :
    Inv { s with ring := ring, consumer := none, polled := s.polled ++ result.toList } := by
  have hinv : call.Inv s.ring s.pushed := h.consumer call hcall
  cases call with
  | loadRead element order => cases hstep
  | loadWritten element order read =>
      rw [RingBuffer.pollStep] at hstep
      split at hstep
      · cases hstep
        refine { h with queue := ?_, read := ?_, consumer := by simp }
        · simpa [Channel.queue] using h.queue
        · simpa using h.read
      · cases hstep
  | copy element read rest =>
      cases rest with
      | cons j rest => cases hstep
      | nil =>
          obtain ⟨rfl, value, hvalue, hcopied⟩ := hinv
          obtain ⟨next, hnext, hstep⟩ := Checked.bind_eq_ok.mp hstep
          cases hstep
          have hnext : next = s.ring.read + 1 := usizeAdd_eq_ok hnext
          have helement : element = value := by
            funext j
            exact hcopied j List.not_mem_nil
          subst helement
          refine ⟨h.queue.tail (.poll element ?_), h.written, ?_, ?_, ?_, by simp⟩
          · show s.pushed[s.polled.length]? = some element
            rwa [h.read]
          · simp [hnext, h.read]
          · intro i value' hread hi
            have hread : next ≤ i := hread
            exact h.data i value' (by omega) hi
          · -- there is more room than the producer has seen
            intro call hmem
            have hpush := h.producer call hmem
            cases call with
            | loadWritten value order => trivial
            | loadRead value order written => exact hpush
            | write value written rest =>
                obtain ⟨hwritten, hroom, hdata⟩ := hpush
                refine ⟨hwritten, ?_, hdata⟩
                show written < next + n
                omega

/-! ## Runs -/

lemma Inv.step (h : s.Inv) (hstep : Channel.Step s s') : s'.Inv := by
  cases hstep with
  | callPush value order hidle =>
      refine { h with producer := ?_ }
      intro call hmem
      cases hmem
      trivial
  | push hcall hstep => exact h.push hcall hstep
  | pushed hcall hstep => exact h.pushed hcall hstep
  | callPoll element order hidle =>
      refine { h with consumer := ?_ }
      intro call hmem
      cases hmem
      trivial
  | poll hcall hstep => exact h.poll hcall hstep
  | polled hcall hstep => exact h.polled hcall hstep

lemma Run.inv (hrun : Channel.Run s s') (h : s.Inv) : s'.Inv := by
  induction hrun with
  | refl => exact h
  | tail _ hstep ih => exact ih.step hstep

/-- **Ring buffers are queues.**  Whatever the loads and stores of one producer and one consumer do
between each other: what was polled is what was pushed first; the slot that is being read holds the
element that was pushed there, completely, and is not being written; and the counters differ by at
most the number of slots. -/
theorem fifo (pos : 0 < n) (data : Fin n → Element β w) (hrun : Channel.Run (.new pos data) s) :
    s.polled <+: s.pushed ∧
    (∀ element read rest, s.consumer = some (.copy element read rest) →
      read = s.polled.length ∧
        s.pushed[read]? = some (s.ring.data (s.ring.slot read)) ∧
        ∀ value written rest', s.producer = some (.write value written rest') →
          s.ring.slot written ≠ s.ring.slot read) ∧
    s.ring.read ≤ s.ring.written ∧ s.ring.written ≤ s.ring.read + n := by
  have h : s.Inv := hrun.inv (.new pos data)
  have hqueue := h.queue_inv
  refine ⟨hqueue.fifo, ?_, ?_, ?_⟩
  · intro element read rest hconsumer
    obtain ⟨rfl, value, hvalue, -⟩ := h.consumer _ hconsumer
    refine ⟨h.read.symm, ?_, ?_⟩
    · rw [h.data _ value le_rfl hvalue, hvalue]
    · intro value' written rest' hproducer
      obtain ⟨rfl, hroom, -⟩ := h.producer _ hproducer
      exact (RingBuffer.slot_ne (h.lt_written hvalue) hroom).symm
  · rw [← h.read, ← h.written]
    exact hqueue.fifo.length_le
  · rw [← h.read, ← h.written]
    exact hqueue.bounded

/-- On a ring with two slots the second element is being written while the first one is read. -/
theorem fifo_twoSlots : ∃ (s : Channel Bool 2 1) (value element : Element Bool 1)
    (rest rest' : List (Fin 1)), s.producer = some (.write value 1 rest) ∧
      s.consumer = some (.copy element 0 rest') ∧
      s.pushed[0]? = some (s.ring.data (s.ring.slot 0)) ∧ s.ring.slot 1 ≠ s.ring.slot 0 := by
  let order : WordOrder 1 := ⟨[0], by decide⟩
  have hrun := (((((((((Relation.ReflTransGen.refl (r := Channel.Step)
    (a := Channel.new (w := 1) (show 0 < 2 by decide) fun _ _ => false)).tail
    (.callPush (fun _ => true) order rfl)).tail (.push rfl rfl)).tail (.push rfl rfl)).tail
    (.push rfl rfl)).tail (.pushed rfl rfl)).tail
    (.callPush (fun _ => true) order rfl)).tail (.push rfl rfl)).tail (.push rfl rfl)).tail
    (.callPoll (fun _ => false) order rfl)
  have hrun := (hrun.tail (.poll rfl rfl)).tail (.poll rfl rfl)
  obtain ⟨-, hreading, -⟩ := fifo _ _ hrun
  obtain ⟨-, hvalue, hother⟩ := hreading _ _ _ rfl
  exact ⟨_, _, _, _, _, rfl, rfl, hvalue, hother _ _ _ rfl⟩

end Channel

end Deravel
