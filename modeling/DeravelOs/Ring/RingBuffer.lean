import Mathlib.Logic.Relation
import DeravelOs.Types.Basic

/-!
# Ring buffers

`types/src/ring_buffer.rs`.  The two sides of a ring are in different processes, or one is in the
kernel: between any two loads and stores of one side, the other one can make as many as it likes.
So `push` and `poll` are not functions here but what they do next (`Push`, `Poll`), with one step for
each load and each store.

An element is `w` words.  A copy of an element moves its words one by one, in an order that is up to
the compiler (`WordOrder`).
-/

namespace Deravel

variable {β : Type} {n w : ℕ}

/-- `T`, as its words. -/
abbrev Element (β : Type) (w : ℕ) : Type := Fin w → β

/-- `RingBuffer<T>` with `n` elements, which `new_in` has checked to be at least one. -/
structure RingBuffer (β : Type) (n w : ℕ) where
  read : ℕ
  written : ℕ
  data : Fin n → Element β w
  pos : 0 < n

/-- The order in which a copy moves the words of an element: each of them at least once. -/
structure WordOrder (w : ℕ) where
  words : List (Fin w)
  complete : ∀ i, i ∈ words

/-- What a call of `push` does next. -/
inductive Push (β : Type) (w : ℕ)
  | loadWritten (value : Element β w) (order : WordOrder w)
  | loadRead (value : Element β w) (order : WordOrder w) (written : ℕ)
  | write (value : Element β w) (written : ℕ) (rest : List (Fin w))

/-- What a call of `poll` does next.  `element` is the memory that the element is copied to. -/
inductive Poll (β : Type) (w : ℕ)
  | loadRead (element : Element β w) (order : WordOrder w)
  | loadWritten (element : Element β w) (order : WordOrder w) (read : ℕ)
  | copy (element : Element β w) (read : ℕ) (rest : List (Fin w))

/-- The value that a call of `push` was given. -/
def Push.value : Push β w → Element β w
  | loadWritten value _ => value
  | loadRead value _ _ => value
  | write value _ _ => value

namespace RingBuffer

/-- The index `count % self.data.0.len()`. -/
def slot (ring : RingBuffer β n w) (count : ℕ) : Fin n := ⟨count % n, Nat.mod_lt _ ring.pos⟩

/-- The ring with one word of an element written. -/
def setWord (ring : RingBuffer β n w) (i : Fin n) (j : Fin w) (word : β) : RingBuffer β n w :=
  { ring with data := Function.update ring.data i (Function.update (ring.data i) j word) }

/-- The next load or store of `push`, and what is left of the call. -/
def pushStep (ring : RingBuffer β n w) : Push β w → Checked (RingBuffer β n w × Option (Push β w))
  | .loadWritten value order => pure (ring, some (.loadRead value order ring.written))
  | .loadRead value order written => do
      let full ← usizeAdd .ringPush ring.read n
      ensure (written < full) (.assertion .ringPush)
      pure (ring, some (.write value written order.words))
  | .write value written (j :: rest) =>
      pure (ring.setWord (ring.slot written) j (value j), some (.write value written rest))
  | .write _ written [] => do
      let written ← usizeAdd .ringPush written 1
      pure ({ ring with written := written }, none)

/-- What a step of `poll` leaves: the rest of the call, or what it returns. -/
abbrev Polled (β : Type) (w : ℕ) : Type := Poll β w ⊕ Option (Element β w)

/-- The next load or store of `poll`. -/
def pollStep (ring : RingBuffer β n w) : Poll β w → Checked (RingBuffer β n w × Polled β w)
  | .loadRead element order => pure (ring, .inl (.loadWritten element order ring.read))
  | .loadWritten element order read =>
      if ring.written ≤ read then pure (ring, .inr none)
      else pure (ring, .inl (.copy element read order.words))
  | .copy element read (j :: rest) =>
      let word := ring.data (ring.slot read) j
      pure (ring, .inl (.copy (Function.update element j word) read rest))
  | .copy element read [] => do
      let read ← usizeAdd .ringPoll read 1
      pure ({ ring with read := read }, .inr (some element))

end RingBuffer

/-! ## One producer and one consumer -/

/-- A ring with the calls that are being made on it, and what the calls before have pushed and
polled. -/
structure Channel (β : Type) (n w : ℕ) where
  ring : RingBuffer β n w
  producer : Option (Push β w)
  consumer : Option (Poll β w)
  pushed : List (Element β w)
  polled : List (Element β w)

/-- A ring that `new` has made, whatever its elements are. -/
def Channel.new (pos : 0 < n) (data : Fin n → Element β w) : Channel β n w :=
  ⟨⟨0, 0, data, pos⟩, none, none, [], []⟩

/-- The next load or store of one of the two sides.  A side whose step panics makes no other one. -/
inductive Channel.Step : Channel β n w → Channel β n w → Prop
  | callPush {s : Channel β n w} (value : Element β w) (order : WordOrder w)
      (h : s.producer = none) : Step s { s with producer := some (.loadWritten value order) }
  | push {s : Channel β n w} {call call' : Push β w} {ring : RingBuffer β n w}
      (h : s.producer = some call) (hstep : s.ring.pushStep call = .ok (ring, some call')) :
      Step s { s with ring := ring, producer := some call' }
  | pushed {s : Channel β n w} {call : Push β w} {ring : RingBuffer β n w}
      (h : s.producer = some call) (hstep : s.ring.pushStep call = .ok (ring, none)) :
      Step s { s with ring := ring, producer := none, pushed := s.pushed ++ [call.value] }
  | callPoll {s : Channel β n w} (element : Element β w) (order : WordOrder w)
      (h : s.consumer = none) : Step s { s with consumer := some (.loadRead element order) }
  | poll {s : Channel β n w} {call call' : Poll β w} {ring : RingBuffer β n w}
      (h : s.consumer = some call) (hstep : s.ring.pollStep call = .ok (ring, .inl call')) :
      Step s { s with ring := ring, consumer := some call' }
  | polled {s : Channel β n w} {call : Poll β w} {ring : RingBuffer β n w}
      {result : Option (Element β w)} (h : s.consumer = some call)
      (hstep : s.ring.pollStep call = .ok (ring, .inr result)) :
      Step s { s with ring := ring, consumer := none, polled := s.polled ++ result.toList }

/-- Some loads and stores of the two sides, in any order. -/
abbrev Channel.Run : Channel β n w → Channel β n w → Prop := Relation.ReflTransGen Channel.Step

end Deravel
