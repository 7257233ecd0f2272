import Mathlib.Data.List.Nodup
import Mathlib.Data.Set.Insert
import Mathlib.Logic.Relation
import Mathlib.Tactic.Common

/-!
# Rendezvous between clients and servers

Participants send messages to each other and wait for an answer.  A message goes to the end of the
server's queue; the server takes one message at a time and answers the client of that message; the
answer stays with the client until it goes on.  Participants join once, may stop at any time that
they do not wait, and can be removed after they have stopped.  A client whose server has stopped is
stopped as well.

* `Inv`: who waits for whom is the same information as who is in whose queue.
* `Live`: nobody who is pending at a live server goes away.
* `Run.inv`, `Run.live`: they hold throughout every run.

Nothing is assumed about the participants, the messages or the answers.
-/

namespace Rendezvous

/-- What a participant is doing.  `place` is where it wants the answer. -/
inductive Status (ι κ β : Type)
  | idle
  | waiting (server : ι) (place : κ)
  | answered (place : κ) (answer : β)
  | done

/-- A participant: its status, the messages that it has not taken yet, and the client of the one
that it has taken. -/
structure Peer (ι μ κ β : Type) where
  status : Status ι κ β
  queue : List (ι × μ)
  serving : Option ι

/-- What can be observed. -/
inductive Event (ι μ κ β : Type)
  | sent (client server : ι) (place : κ) (message : μ)
  | taken (client server : ι) (message : μ)
  | answered (client server : ι) (answer : β)
  | resumed (client : ι) (place : κ) (answer : β)

/-- The participants that are there, those that ever joined, and everything that has happened. -/
structure State (ι μ κ β : Type) where
  peer : ι → Option (Peer ι μ κ β)
  used : Set ι
  history : List (Event ι μ κ β)

variable {ι μ κ β : Type}

/-- The client of an event. -/
def Event.client : Event ι μ κ β → ι
  | sent client _ _ _ => client
  | taken client _ _ => client
  | answered client _ _ => client
  | resumed client _ _ => client

/-- The server that acts in an event. -/
def Event.actingServer : Event ι μ κ β → Option ι
  | taken _ server _ => some server
  | answered _ server _ => some server
  | _ => none

/-- The clients that a participant owes an answer, in the order in which they will get it. -/
def Peer.pending (p : Peer ι μ κ β) : List ι := p.serving.toList ++ p.queue.map Prod.fst

/-- A participant that has just joined. -/
def Peer.new : Peer ι μ κ β := ⟨.idle, [], none⟩

variable [DecidableEq ι]

namespace State

/-- The state with one participant replaced. -/
def put (s : State ι μ κ β) (a : ι) (p : Peer ι μ κ β) : State ι μ κ β :=
  { s with peer := Function.update s.peer a (some p) }

/-- The state after an event. -/
def note (s : State ι μ κ β) (e : Event ι μ κ β) : State ι μ κ β :=
  { s with history := s.history ++ [e] }

@[simp] lemma put_used (s : State ι μ κ β) (a : ι) (p : Peer ι μ κ β) :
    (s.put a p).used = s.used := rfl

@[simp] lemma put_history (s : State ι μ κ β) (a : ι) (p : Peer ι μ κ β) :
    (s.put a p).history = s.history := rfl

@[simp] lemma put_peer (s : State ι μ κ β) (a b : ι) (p : Peer ι μ κ β) :
    (s.put a p).peer b = if b = a then some p else s.peer b := by
  simp only [put, Function.update_apply]

omit [DecidableEq ι] in
@[simp] lemma note_peer (s : State ι μ κ β) (e : Event ι μ κ β) : (s.note e).peer = s.peer := rfl

omit [DecidableEq ι] in
@[simp] lemma note_used (s : State ι μ κ β) (e : Event ι μ κ β) : (s.note e).used = s.used := rfl

omit [DecidableEq ι] in
@[simp] lemma note_history (s : State ι μ κ β) (e : Event ι μ κ β) :
    (s.note e).history = s.history ++ [e] := rfl

end State

/-- The steps of the participants. -/
inductive Step : State ι μ κ β → State ι μ κ β → Prop
  | send {s : State ι μ κ β} {a b : ι} {p q : Peer ι μ κ β} (place : κ) (m : μ) (hne : a ≠ b)
      (hp : s.peer a = some p) (hidle : p.status = .idle) (hq : s.peer b = some q) :
      Step s (((s.put a { p with status := .waiting b place }).put b
        { q with queue := q.queue ++ [(a, m)] }).note (.sent a b place m))
  | take {s : State ι μ κ β} {a b : ι} {q : Peer ι μ κ β} {m : μ} {rest : List (ι × μ)}
      (hq : s.peer b = some q) (hidle : q.status = .idle) (hserving : q.serving = none)
      (hqueue : q.queue = (a, m) :: rest) :
      Step s ((s.put b { q with queue := rest, serving := some a }).note (.taken a b m))
  | discard {s : State ι μ κ β} {b : ι} {q : Peer ι μ κ β} {message : ι × μ}
      {rest : List (ι × μ)} (hq : s.peer b = some q) (hidle : q.status = .idle)
      (hserving : q.serving = none) (hqueue : q.queue = message :: rest) :
      Step s (s.put b { q with queue := rest, status := .done })
  | answer {s : State ι μ κ β} {a b : ι} {p q : Peer ι μ κ β} {place : κ} (r : β)
      (hq : s.peer b = some q) (hidle : q.status = .idle) (hserving : q.serving = some a)
      (hp : s.peer a = some p) (hwaiting : p.status = .waiting b place) :
      Step s (((s.put b { q with serving := none }).put a
        { p with status := .answered place r }).note (.answered a b r))
  | abandon {s : State ι μ κ β} {b : ι} {q : Peer ι μ κ β} (hq : s.peer b = some q)
      (hidle : q.status = .idle) : Step s (s.put b { q with serving := none, status := .done })
  | resume {s : State ι μ κ β} {a : ι} {p : Peer ι μ κ β} {place : κ} {r : β}
      (hp : s.peer a = some p) (hanswered : p.status = .answered place r) :
      Step s ((s.put a { p with status := .idle }).note (.resumed a place r))
  | finish {s : State ι μ κ β} {a : ι} {p : Peer ι μ κ β} (hp : s.peer a = some p)
      (hwaiting : ∀ b place, p.status ≠ .waiting b place) :
      Step s (s.put a { p with status := .done })
  | orphan {s : State ι μ κ β} {a b : ι} {p : Peer ι μ κ β} {place : κ} (hp : s.peer a = some p)
      (hwaiting : p.status = .waiting b place)
      (hdead : ∀ q, s.peer b = some q → q.status = .done) :
      Step s (s.put a { p with status := .done })
  | remove {s : State ι μ κ β} {a : ι} {p : Peer ι μ κ β} (hp : s.peer a = some p)
      (hdone : p.status = .done) : Step s { s with peer := Function.update s.peer a none }
  | join {s : State ι μ κ β} {a : ι} (hnew : a ∉ s.used) :
      Step s { s.put a .new with used := insert a s.used }

/-- Runs. -/
abbrev Run : State ι μ κ β → State ι μ κ β → Prop := Relation.ReflTransGen Step

/-- Where runs begin: everyone has just joined. -/
structure Initial (s : State ι μ κ β) : Prop where
  used : ∀ a p, s.peer a = some p → a ∈ s.used
  new : ∀ a p, s.peer a = some p → p = .new
  history : s.history = []

/-! ## Who waits for whom -/

/-- **The rendezvous invariant.**  A participant waits for a live server exactly when it is pending
there, and it is pending at most once. -/
structure Inv (s : State ι μ κ β) : Prop where
  used : ∀ {a p}, s.peer a = some p → a ∈ s.used
  server_used : ∀ {a p b place}, s.peer a = some p → p.status = .waiting b place → b ∈ s.used
  nodup : ∀ {b q}, s.peer b = some q → q.pending.Nodup
  client_used : ∀ {b q a}, s.peer b = some q → a ∈ q.pending → a ∈ s.used
  client : ∀ {b q a p}, s.peer b = some q → a ∈ q.pending → s.peer a = some p →
    p.status = .done ∨ ∃ place, p.status = .waiting b place
  waiting : ∀ {a p b place q}, s.peer a = some p → p.status = .waiting b place →
    s.peer b = some q → q.status ≠ .done → a ∈ q.pending

namespace Inv

variable {s : State ι μ κ β} {a b : ι} {p p' q : Peer ι μ κ β} {place : κ}

omit [DecidableEq ι] in
lemma initial (h : Initial s) : Inv s where
  used := h.used _ _
  server_used ha hw := by
    rw [h.new _ _ ha] at hw
    cases hw
  nodup hb := by
    rw [h.new _ _ hb]
    exact List.nodup_nil
  client_used hb hmem := by
    rw [h.new _ _ hb] at hmem
    cases hmem
  client hb hmem := by
    rw [h.new _ _ hb] at hmem
    cases hmem
  waiting ha hw := by
    rw [h.new _ _ ha] at hw
    cases hw

omit [DecidableEq ι] in
lemma note (h : Inv s) (e : Event ι μ κ β) : Inv (s.note e) :=
  ⟨h.used, h.server_used, h.nodup, h.client_used, h.client, h.waiting⟩

omit [DecidableEq ι] in
/-- A participant that neither waits nor is done is pending nowhere. -/
lemma not_pending (h : Inv s) (ha : s.peer a = some p) (hb : s.peer b = some q)
    (hdone : p.status ≠ .done) (hwaiting : ∀ place, p.status ≠ .waiting b place) :
    a ∉ q.pending := by
  intro hmem
  rcases h.client hb hmem ha with hd | ⟨place, hw⟩
  · exact hdone hd
  · exact hwaiting place hw

/-- What may happen to a single participant: it stops, or what it owes stays and it either keeps its
status or goes on after an answer. -/
def Harmless (p p' : Peer ι μ κ β) : Prop :=
  p'.status = .done ∨ p'.pending = p.pending ∧
    (p'.status = p.status ∨ p'.status = .idle ∧ ∃ place r, p.status = .answered place r)

/-- Changes of a single participant keep the invariant. -/
lemma change (h : Inv s) (hx : s.peer a = some p) (hpending : p'.pending.Sublist p.pending)
    (hchange : Harmless p p') : Inv (s.put a p') := by
  have hstatus : ∀ {b place}, p'.status = .waiting b place → p.status = .waiting b place := by
    intro b place hw
    rcases hchange with hdone | ⟨-, hsame | ⟨hidle, -⟩⟩
    · rw [hdone] at hw
      cases hw
    · rw [← hsame, hw]
    · rw [hidle] at hw
      cases hw
  refine ⟨?_, ?_, ?_, ?_, ?_, ?_⟩
  · intro c r hc
    rw [State.put_peer] at hc
    split at hc
    · next heq =>
        subst heq
        exact h.used hx
    · exact h.used hc
  · intro c r d place hc hw
    rw [State.put_peer] at hc
    split at hc
    · cases hc
      exact h.server_used hx (hstatus hw)
    · exact h.server_used hc hw
  · intro d q hd
    rw [State.put_peer] at hd
    split at hd
    · cases hd
      exact (h.nodup hx).sublist hpending
    · exact h.nodup hd
  · intro d q c hd hmem
    rw [State.put_peer] at hd
    split at hd
    · cases hd
      exact h.client_used hx (hpending.subset hmem)
    · exact h.client_used hd hmem
  · intro d q c r hd hmem hc
    -- whoever is pending now was pending before
    have hold : ∃ q', s.peer d = some q' ∧ c ∈ q'.pending := by
      rw [State.put_peer] at hd
      split at hd
      · next heq =>
          cases hd
          exact ⟨p, heq ▸ hx, hpending.subset hmem⟩
      · exact ⟨q, hd, hmem⟩
    obtain ⟨q', hd', hmem'⟩ := hold
    rw [State.put_peer] at hc
    split at hc
    · next heq =>
        cases hc
        subst heq
        have hbefore := h.client hd' hmem' hx
        rcases hchange with hdone | ⟨-, hsame | ⟨-, place, answer, hanswered⟩⟩
        · exact Or.inl hdone
        · rwa [hsame]
        · rw [hanswered] at hbefore
          rcases hbefore with hd | ⟨_, hw⟩
          · cases hd
          · cases hw
    · exact h.client hd' hmem' hc
  · intro c r d place q hc hw hd hlive
    -- whoever waits now has waited before
    have hold : ∃ r', s.peer c = some r' ∧ r'.status = .waiting d place := by
      rw [State.put_peer] at hc
      split at hc
      · next heq =>
          cases hc
          exact ⟨p, heq ▸ hx, hstatus hw⟩
      · exact ⟨r, hc, hw⟩
    obtain ⟨r', hc', hw'⟩ := hold
    rw [State.put_peer] at hd
    split at hd
    · next heq =>
        cases hd
        subst heq
        rcases hchange with hdone | ⟨hsame, hsame' | ⟨-, place, answer, hanswered⟩⟩
        · exact absurd hdone hlive
        · rw [hsame]
          exact h.waiting hc' hw' hx (hsame' ▸ hlive)
        · rw [hsame]
          refine h.waiting hc' hw' hx ?_
          rw [hanswered]
          exact fun hcontra => by cases hcontra
    · exact h.waiting hc' hw' hd hlive

/-- The participants after a message was sent. -/
lemma send_cases {m : μ} (hne : a ≠ b) (hp : s.peer a = some p) (hq : s.peer b = some q) {c : ι}
    {r : Peer ι μ κ β}
    (hr : ((s.put a { p with status := .waiting b place }).put b
      { q with queue := q.queue ++ [(a, m)] }).peer c = some r) :
    ∃ r₀, s.peer c = some r₀ ∧
      (c = a ∧ r₀ = p ∧ r.status = .waiting b place ∨ c ≠ a ∧ r.status = r₀.status) ∧
      (c = b ∧ r.pending = r₀.pending ++ [a] ∨ c ≠ b ∧ r.pending = r₀.pending) := by
  rw [State.put_peer, State.put_peer] at hr
  split at hr
  · next hcb =>
      cases hr
      subst hcb
      exact ⟨q, hq, Or.inr ⟨hne.symm, rfl⟩, Or.inl ⟨rfl, by simp [Peer.pending]⟩⟩
  · next hcb =>
      split at hr
      · next hca =>
          cases hr
          subst hca
          exact ⟨p, hp, Or.inl ⟨rfl, rfl, rfl⟩, Or.inr ⟨hcb, rfl⟩⟩
      · next hca => exact ⟨r, hr, Or.inr ⟨hca, rfl⟩, Or.inr ⟨hcb, rfl⟩⟩

/-- A client that was idle is new in the queue of its server. -/
lemma send (h : Inv s) (m : μ) (hne : a ≠ b) (hp : s.peer a = some p) (hidle : p.status = .idle)
    (hq : s.peer b = some q) :
    Inv ((s.put a { p with status := .waiting b place }).put b
      { q with queue := q.queue ++ [(a, m)] }) := by
  have hnot : ∀ {d r}, s.peer d = some r → a ∉ r.pending := fun hd =>
    h.not_pending hp hd (by simp [hidle]) (by simp [hidle])
  refine ⟨?_, ?_, ?_, ?_, ?_, ?_⟩
  · intro c r hc
    obtain ⟨r₀, hc₀, -⟩ := send_cases hne hp hq hc
    exact h.used hc₀
  · intro c r d place' hc hw
    obtain ⟨r₀, hc₀, ⟨-, -, hstatus⟩ | ⟨-, hstatus⟩, -⟩ := send_cases hne hp hq hc
    · rw [hstatus] at hw
      cases hw
      exact h.used hq
    · exact h.server_used hc₀ (hstatus ▸ hw)
  · intro d r hd
    obtain ⟨r₀, hd₀, -, ⟨-, hpending⟩ | ⟨-, hpending⟩⟩ := send_cases hne hp hq hd
    · rw [hpending]
      exact List.Nodup.append (h.nodup hd₀) (List.nodup_singleton a)
        (List.disjoint_singleton.mpr (hnot hd₀))
    · rw [hpending]
      exact h.nodup hd₀
  · intro d r c hd hmem
    obtain ⟨r₀, hd₀, -, ⟨-, hpending⟩ | ⟨-, hpending⟩⟩ := send_cases hne hp hq hd
    · rw [hpending] at hmem
      rcases List.mem_append.mp hmem with hmem | hmem
      · exact h.client_used hd₀ hmem
      · rw [List.mem_singleton.mp hmem]
        exact h.used hp
    · exact h.client_used hd₀ (hpending ▸ hmem)
  · intro d r c r' hd hmem hc
    obtain ⟨r₀, hd₀, -, hpending⟩ := send_cases hne hp hq hd
    obtain ⟨r'₀, hc₀, hstatus, -⟩ := send_cases hne hp hq hc
    rcases hstatus with ⟨rfl, -, hwaiting⟩ | ⟨hca, hsame⟩
    · rcases hpending with ⟨rfl, -⟩ | ⟨-, hpending⟩
      · exact Or.inr ⟨place, hwaiting⟩
      · exact absurd (hpending ▸ hmem) (hnot hd₀)
    · rw [hsame]
      refine h.client hd₀ ?_ hc₀
      rcases hpending with ⟨-, hpending⟩ | ⟨-, hpending⟩
      · rw [hpending, List.mem_append, List.mem_singleton] at hmem
        exact hmem.resolve_right hca
      · exact hpending ▸ hmem
  · intro c r d place' r' hc hw hd hlive
    obtain ⟨r₀, hc₀, hstatus, -⟩ := send_cases hne hp hq hc
    obtain ⟨r'₀, hd₀, hstatus', hpending⟩ := send_cases hne hp hq hd
    rcases hstatus with ⟨rfl, -, hwaiting⟩ | ⟨hca, hsame⟩
    · rw [hwaiting] at hw
      cases hw
      rcases hpending with ⟨-, hpending⟩ | ⟨hdb, -⟩
      · rw [hpending]
        exact List.mem_append_right _ List.mem_cons_self
      · exact absurd rfl hdb
    · have hlive₀ : r'₀.status ≠ .done := by
        rcases hstatus' with ⟨-, rfl, -⟩ | ⟨-, hsame'⟩
        · simp [hidle]
        · exact hsame' ▸ hlive
      have hmem := h.waiting hc₀ (hsame ▸ hw) hd₀ hlive₀
      rcases hpending with ⟨-, hpending⟩ | ⟨-, hpending⟩
      · rw [hpending]
        exact List.mem_append_left _ hmem
      · rwa [hpending]

/-- The participants after an answer. -/
lemma answer_cases {r : β} (hq : s.peer b = some q) (hidle : q.status = .idle)
    (hserving : q.serving = some a) (hp : s.peer a = some p)
    (hwaiting : p.status = .waiting b place) {c : ι} {t : Peer ι μ κ β}
    (ht : ((s.put b { q with serving := none }).put a
      { p with status := .answered place r }).peer c = some t) :
    ∃ t₀, s.peer c = some t₀ ∧
      (c = a ∧ t.status = .answered place r ∨ c ≠ a ∧ t.status = t₀.status) ∧
      (c = b ∧ t₀.pending = a :: t.pending ∨ c ≠ b ∧ t.pending = t₀.pending) := by
  have hne : a ≠ b := by
    rintro rfl
    rw [hp] at hq
    cases hq
    rw [hidle] at hwaiting
    cases hwaiting
  rw [State.put_peer, State.put_peer] at ht
  split at ht
  · next hca =>
      cases ht
      subst hca
      exact ⟨p, hp, Or.inl ⟨rfl, rfl⟩, Or.inr ⟨hne, rfl⟩⟩
  · next hca =>
      split at ht
      · next hcb =>
          cases ht
          subst hcb
          exact ⟨q, hq, Or.inr ⟨hca, rfl⟩, Or.inl ⟨rfl, by simp [Peer.pending, hserving]⟩⟩
      · next hcb => exact ⟨t, ht, Or.inr ⟨hca, rfl⟩, Or.inr ⟨hcb, rfl⟩⟩

/-- An answered client is pending nowhere any more. -/
lemma answer (h : Inv s) (r : β) (hq : s.peer b = some q) (hidle : q.status = .idle)
    (hserving : q.serving = some a) (hp : s.peer a = some p)
    (hwaiting : p.status = .waiting b place) :
    Inv ((s.put b { q with serving := none }).put a { p with status := .answered place r }) := by
  refine ⟨?_, ?_, ?_, ?_, ?_, ?_⟩
  · intro c t hc
    obtain ⟨t₀, hc₀, -⟩ := answer_cases hq hidle hserving hp hwaiting hc
    exact h.used hc₀
  · intro c t d place' hc hw
    obtain ⟨t₀, hc₀, ⟨-, hstatus⟩ | ⟨-, hstatus⟩, -⟩ :=
      answer_cases hq hidle hserving hp hwaiting hc
    · rw [hstatus] at hw
      cases hw
    · exact h.server_used hc₀ (hstatus ▸ hw)
  · intro d t hd
    obtain ⟨t₀, hd₀, -, ⟨-, hpending⟩ | ⟨-, hpending⟩⟩ :=
      answer_cases hq hidle hserving hp hwaiting hd
    · exact (List.nodup_cons.mp (hpending ▸ h.nodup hd₀)).2
    · exact hpending ▸ h.nodup hd₀
  · intro d t c hd hmem
    obtain ⟨t₀, hd₀, -, ⟨-, hpending⟩ | ⟨-, hpending⟩⟩ :=
      answer_cases hq hidle hserving hp hwaiting hd
    · exact h.client_used hd₀ (hpending ▸ List.mem_cons_of_mem a hmem)
    · exact h.client_used hd₀ (hpending ▸ hmem)
  · intro d t c t' hd hmem hc
    obtain ⟨t₀, hd₀, -, hpending⟩ := answer_cases hq hidle hserving hp hwaiting hd
    obtain ⟨t'₀, hc₀, hstatus, -⟩ := answer_cases hq hidle hserving hp hwaiting hc
    have hmem₀ : c ∈ t₀.pending := by
      rcases hpending with ⟨-, hpending⟩ | ⟨-, hpending⟩
      · rw [hpending]
        exact List.mem_cons_of_mem a hmem
      · exact hpending ▸ hmem
    rcases hstatus with ⟨rfl, -⟩ | ⟨-, hsame⟩
    · -- the client waited for `b` only, and there it was the first
      exfalso
      rcases h.client hd₀ hmem₀ hp with hdone | ⟨place', hw⟩
      · rw [hwaiting] at hdone
        cases hdone
      · rw [hwaiting] at hw
        cases hw
        rcases hpending with ⟨-, hpending⟩ | ⟨hne, -⟩
        · exact (List.nodup_cons.mp (hpending ▸ h.nodup hd₀)).1 hmem
        · exact hne rfl
    · rw [hsame]
      exact h.client hd₀ hmem₀ hc₀
  · intro c t d place' t' hc hw hd hlive
    obtain ⟨t₀, hc₀, hstatus, -⟩ := answer_cases hq hidle hserving hp hwaiting hc
    obtain ⟨t'₀, hd₀, hstatus', hpending⟩ := answer_cases hq hidle hserving hp hwaiting hd
    rcases hstatus with ⟨-, hanswered⟩ | ⟨hca, hsame⟩
    · rw [hanswered] at hw
      cases hw
    · have hlive₀ : t'₀.status ≠ .done := by
        rcases hstatus' with ⟨rfl, -⟩ | ⟨-, hsame'⟩
        · rw [hp] at hd₀
          cases hd₀
          simp [hwaiting]
        · exact hsame' ▸ hlive
      have hmem := h.waiting hc₀ (hsame ▸ hw) hd₀ hlive₀
      rcases hpending with ⟨-, hpending⟩ | ⟨-, hpending⟩
      · rw [hpending] at hmem
        exact (List.mem_cons.mp hmem).resolve_left hca
      · rwa [hpending]

/-- Somebody who has stopped can go. -/
lemma remove (h : Inv s) : Inv { s with peer := Function.update s.peer a none } := by
  have hold : ∀ {c r}, Function.update s.peer a none c = some r → s.peer c = some r := by
    intro c r hc
    rw [Function.update_apply] at hc
    split at hc
    · cases hc
    · exact hc
  exact ⟨fun hc => h.used (hold hc), fun hc => h.server_used (hold hc), fun hc => h.nodup (hold hc),
    fun hc => h.client_used (hold hc), fun hd hmem hc => h.client (hold hd) hmem (hold hc),
    fun hc hw hd => h.waiting (hold hc) hw (hold hd)⟩

/-- Nobody waits for somebody who has never been there. -/
lemma join (h : Inv s) (hnew : a ∉ s.used) :
    Inv { s.put a .new with used := insert a s.used } := by
  have hcases : ∀ {c r}, (s.put a Peer.new).peer c = some r →
      c = a ∧ r = .new ∨ s.peer c = some r := by
    intro c r hc
    rw [State.put_peer] at hc
    split at hc
    · next heq => exact Or.inl ⟨heq, (Option.some.inj hc).symm⟩
    · exact Or.inr hc
  refine ⟨?_, ?_, ?_, ?_, ?_, ?_⟩
  · intro c r hc
    rcases hcases hc with ⟨rfl, -⟩ | hc
    · exact Set.mem_insert _ _
    · exact Set.mem_insert_of_mem _ (h.used hc)
  · intro c r d place hc hw
    rcases hcases hc with ⟨-, rfl⟩ | hc₀
    · cases hw
    · exact Set.mem_insert_of_mem _ (h.server_used hc₀ hw)
  · intro d r hd
    rcases hcases hd with ⟨-, rfl⟩ | hd₀
    · exact List.nodup_nil
    · exact h.nodup hd₀
  · intro d r c hd hmem
    rcases hcases hd with ⟨-, rfl⟩ | hd₀
    · cases hmem
    · exact Set.mem_insert_of_mem _ (h.client_used hd₀ hmem)
  · intro d r c r' hd hmem hc
    rcases hcases hd with ⟨-, rfl⟩ | hd₀
    · cases hmem
    · rcases hcases hc with ⟨rfl, -⟩ | hc₀
      · exact absurd (h.client_used hd₀ hmem) hnew
      · exact h.client hd₀ hmem hc₀
  · intro c r d place r' hc hw hd hlive
    rcases hcases hc with ⟨-, rfl⟩ | hc₀
    · cases hw
    · rcases hcases hd with ⟨rfl, -⟩ | hd₀
      · exact absurd (h.server_used hc₀ hw) hnew
      · exact h.waiting hc₀ hw hd₀ hlive

/-- **Every step keeps the rendezvous invariant.** -/
theorem step {s' : State ι μ κ β} (h : Inv s) (hstep : Step s s') : Inv s' := by
  cases hstep with
  | send place m hne hp hidle hq => exact (h.send m hne hp hidle hq).note _
  | take hq hidle hserving hqueue =>
      refine (h.change hq ?_ ?_).note _
      · simp [Peer.pending, hserving, hqueue]
      · exact Or.inr ⟨by simp [Peer.pending, hserving, hqueue], Or.inl rfl⟩
  | discard hq hidle hserving hqueue =>
      refine h.change hq ?_ (Or.inl rfl)
      simp [Peer.pending, hqueue]
  | answer r hq hidle hserving hp hwaiting =>
      exact (h.answer r hq hidle hserving hp hwaiting).note _
  | abandon hq hidle =>
      refine h.change hq ?_ (Or.inl rfl)
      simp [Peer.pending]
  | @resume _ p _ _ hp hanswered =>
      refine (h.change hp ?_ ?_).note _
      · exact List.Sublist.refl p.pending
      · exact Or.inr ⟨rfl, Or.inr ⟨rfl, _, _, hanswered⟩⟩
  | finish hp hwaiting => exact h.change hp (List.Sublist.refl _) (Or.inl rfl)
  | orphan hp hwaiting hdead => exact h.change hp (List.Sublist.refl _) (Or.inl rfl)
  | remove hp hdone => exact h.remove
  | join hnew => exact h.join hnew

end Inv

/-- The rendezvous invariant holds throughout every run. -/
theorem Run.inv {s s' : State ι μ κ β} (h : Inv s) (run : Run s s') : Inv s' := by
  induction run with
  | refl => exact h
  | tail _ hstep ih => exact ih.step hstep

/-! ## Who is served -/

/-- Whoever is pending at a live server is there and waits for it. -/
def Live (s : State ι μ κ β) : Prop :=
  ∀ ⦃b q a⦄, s.peer b = some q → q.status ≠ .done → a ∈ q.pending →
    ∃ p place, s.peer a = some p ∧ p.status = .waiting b place

namespace Live

variable {s : State ι μ κ β} {a b : ι} {p p' q : Peer ι μ κ β} {place : κ}

omit [DecidableEq ι] in
lemma initial (h : Initial s) : Live s := by
  intro b q a hb _ hmem
  rw [h.new _ _ hb] at hmem
  cases hmem

/-- A single participant may change unless a live server has it pending. -/
lemma put (h : Live s) (hp : s.peer a = some p)
    (hlive : p'.status ≠ .done → p.status ≠ .done ∧ p'.pending ⊆ p.pending)
    (hwaiting : ∀ {b place}, p.status = .waiting b place →
      p'.status = .waiting b place ∨ ∀ q, s.peer b = some q → q.status = .done) :
    Live (s.put a p') := by
  intro d r c hd hnotdone hmem
  have hold : ∃ r₀, s.peer d = some r₀ ∧ r₀.status ≠ .done ∧ c ∈ r₀.pending := by
    rw [State.put_peer] at hd
    split at hd
    · next heq =>
        cases hd
        subst heq
        exact ⟨p, hp, (hlive hnotdone).1, (hlive hnotdone).2 hmem⟩
    · exact ⟨r, hd, hnotdone, hmem⟩
  obtain ⟨r₀, hd₀, hlive₀, hmem₀⟩ := hold
  obtain ⟨t, place, hc, hw⟩ := h hd₀ hlive₀ hmem₀
  by_cases hca : c = a
  · subst hca
    rw [hp] at hc
    cases hc
    rcases hwaiting hw with hkeep | hdead
    · exact ⟨p', place, by rw [State.put_peer, if_pos rfl], hkeep⟩
    · exact absurd (hdead r₀ hd₀) hlive₀
  · exact ⟨t, place, by rw [State.put_peer, if_neg hca, hc], hw⟩

omit [DecidableEq ι] in
lemma note (h : Live s) (e : Event ι μ κ β) : Live (s.note e) := h

/-- A client that was idle is pending at its server only. -/
lemma send (h : Live s) (hi : Inv s) (m : μ) (hne : a ≠ b) (hp : s.peer a = some p)
    (hidle : p.status = .idle) (hq : s.peer b = some q) :
    Live ((s.put a { p with status := .waiting b place }).put b
      { q with queue := q.queue ++ [(a, m)] }) := by
  intro d r c hd hnotdone hmem
  obtain ⟨r₀, hd₀, hstatus, hpending⟩ := Inv.send_cases hne hp hq hd
  by_cases hca : c = a
  · subst hca
    have hdb : d = b := by
      by_contra hdb
      rcases hpending with ⟨heq, -⟩ | ⟨-, hsame⟩
      · exact hdb heq
      · exact hi.not_pending hp hd₀ (by simp [hidle]) (by simp [hidle]) (hsame ▸ hmem)
    subst hdb
    refine ⟨{ p with status := .waiting d place }, place, ?_, rfl⟩
    rw [State.put_peer, if_neg hne, State.put_peer, if_pos rfl]
  · have hlive₀ : r₀.status ≠ .done := by
      rcases hstatus with ⟨-, rfl, -⟩ | ⟨-, hsame⟩
      · simp [hidle]
      · exact hsame ▸ hnotdone
    have hmem₀ : c ∈ r₀.pending := by
      rcases hpending with ⟨-, hpending⟩ | ⟨-, hpending⟩
      · rw [hpending, List.mem_append, List.mem_singleton] at hmem
        exact hmem.resolve_right hca
      · exact hpending ▸ hmem
    obtain ⟨t, place', hc, hw⟩ := h hd₀ hlive₀ hmem₀
    by_cases hcb : c = b
    · subst hcb
      rw [hq] at hc
      cases hc
      refine ⟨{ q with queue := q.queue ++ [(a, m)] }, place', ?_, hw⟩
      rw [State.put_peer, if_pos rfl]
    · exact ⟨t, place', by rw [State.put_peer, if_neg hcb, State.put_peer, if_neg hca, hc], hw⟩

/-- An answered client is pending nowhere. -/
lemma answer (h : Live s) (hi : Inv s) (r : β) (hq : s.peer b = some q) (hidle : q.status = .idle)
    (hserving : q.serving = some a) (hp : s.peer a = some p)
    (hwaiting : p.status = .waiting b place) :
    Live ((s.put b { q with serving := none }).put a { p with status := .answered place r }) := by
  intro d t c hd hnotdone hmem
  obtain ⟨t₀, hd₀, hstatus, hpending⟩ := Inv.answer_cases hq hidle hserving hp hwaiting hd
  have hlive₀ : t₀.status ≠ .done := by
    rcases hstatus with ⟨rfl, -⟩ | ⟨-, hsame⟩
    · rw [hp] at hd₀
      cases hd₀
      simp [hwaiting]
    · exact hsame ▸ hnotdone
  have hmem₀ : c ∈ t₀.pending := by
    rcases hpending with ⟨-, hpending⟩ | ⟨-, hpending⟩
    · rw [hpending]
      exact List.mem_cons_of_mem a hmem
    · exact hpending ▸ hmem
  obtain ⟨u, place', hc, hw⟩ := h hd₀ hlive₀ hmem₀
  have hca : c ≠ a := by
    -- the client waited for `b` only, and there it was the first
    rintro rfl
    rw [hp] at hc
    cases hc
    rw [hwaiting] at hw
    cases hw
    rcases hpending with ⟨-, hpending⟩ | ⟨hne, -⟩
    · exact (List.nodup_cons.mp (hpending ▸ hi.nodup hd₀)).1 hmem
    · exact hne rfl
  by_cases hcb : c = b
  · subst hcb
    rw [hq] at hc
    cases hc
    refine ⟨{ q with serving := none }, place', ?_, hw⟩
    rw [State.put_peer, if_neg hca, State.put_peer, if_pos rfl]
  · exact ⟨u, place', by rw [State.put_peer, if_neg hca, State.put_peer, if_neg hcb, hc], hw⟩

/-- **Every step keeps live servers' clients.** -/
theorem step {s' : State ι μ κ β} (h : Live s) (hi : Inv s) (hstep : Step s s') : Live s' := by
  cases hstep with
  | send place m hne hp hidle hq => exact (h.send hi m hne hp hidle hq).note _
  | take hq hidle hserving hqueue =>
      refine (h.put hq ?_ ?_).note _
      · exact fun hlive => ⟨hlive, by simp [Peer.pending, hserving, hqueue]⟩
      · exact fun hw => Or.inl hw
  | discard hq hidle hserving hqueue =>
      refine h.put hq (fun hlive => absurd rfl hlive) fun hw => ?_
      rw [hidle] at hw
      cases hw
  | answer r hq hidle hserving hp hwaiting =>
      exact (h.answer hi r hq hidle hserving hp hwaiting).note _
  | abandon hq hidle =>
      refine h.put hq (fun hlive => absurd rfl hlive) fun hw => ?_
      rw [hidle] at hw
      cases hw
  | resume hp hanswered =>
      refine (h.put hp ?_ ?_).note _
      · exact fun _ => ⟨by simp [hanswered], fun c hc => hc⟩
      · intro b place hw
        rw [hanswered] at hw
        cases hw
  | finish hp hwaiting =>
      exact h.put hp (fun hlive => absurd rfl hlive) fun hw => absurd hw (hwaiting _ _)
  | orphan hp hwaiting hdead =>
      refine h.put hp (fun hlive => absurd rfl hlive) fun hw => Or.inr ?_
      rw [hwaiting] at hw
      cases hw
      exact hdead
  | @remove a p hp hdone =>
      intro d r c hd hlive hmem
      change Function.update s.peer a none d = some r at hd
      rw [Function.update_apply] at hd
      split at hd
      · cases hd
      · obtain ⟨t, place, hc, hw⟩ := h hd hlive hmem
        refine ⟨t, place, ?_, hw⟩
        change Function.update s.peer a none c = some t
        rw [Function.update_apply, if_neg, hc]
        rintro rfl
        rw [hp] at hc
        cases hc
        rw [hdone] at hw
        cases hw
  | @join a hnew =>
      intro d r c hd hlive hmem
      change (s.put a Peer.new).peer d = some r at hd
      rw [State.put_peer] at hd
      split at hd
      · cases hd
        cases hmem
      · obtain ⟨t, place, hc, hw⟩ := h hd hlive hmem
        refine ⟨t, place, ?_, hw⟩
        change (s.put a Peer.new).peer c = some t
        rw [State.put_peer, if_neg, hc]
        rintro rfl
        exact hnew (hi.used hc)

end Live

/-- The clients of live servers are there throughout every run. -/
theorem Run.live {s s' : State ι μ κ β} (hi : Inv s) (h : Live s) (run : Run s s') : Live s' := by
  induction run with
  | refl => exact h
  | tail hrun hstep ih => exact ih.step (Run.inv hi hrun) hstep

end Rendezvous
