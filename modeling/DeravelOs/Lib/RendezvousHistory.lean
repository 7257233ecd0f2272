import DeravelOs.Lib.Rendezvous

/-!
# Histories of a rendezvous

What the participants of `Rendezvous` do is observed as a list of events.

* `Answered`: a client has sent a message, the server has taken it and, without doing anything else
  for others in between, answered it.
* `HistoryInv`: messages are taken in the order in which they were sent, and every answer belongs to
  a message that was taken.
* `AtRest`: whoever has sent a message goes on with an answer only.
* `Run.historyInv`, `Run.atRest`: they hold throughout every run.
-/

namespace Rendezvous

variable {ι μ κ β : Type} [DecidableEq ι]

section History

omit [DecidableEq ι]

/-- The client has sent a message and done nothing since. -/
def Sent (a b : ι) (place : κ) (m : μ) (h : List (Event ι μ κ β)) : Prop :=
  ∃ h₁ h₂, h = h₁ ++ .sent a b place m :: h₂ ∧ ∀ e ∈ h₂, e.client ≠ a

/-- The server has taken the client's message and done nothing else since. -/
def Taken (a b : ι) (place : κ) (m : μ) (h : List (Event ι μ κ β)) : Prop :=
  ∃ h₁ h₂, Sent a b place m h₁ ∧ h = h₁ ++ .taken a b m :: h₂ ∧
    ∀ e ∈ h₂, e.client ≠ a ∧ e.actingServer ≠ some b

/-- The server has answered the message that it took. -/
def Answered (a : ι) (place : κ) (r : β) (h : List (Event ι μ κ β)) : Prop :=
  ∃ b m h₁ h₂, Taken a b place m h₁ ∧ h = h₁ ++ .answered a b r :: h₂ ∧ ∀ e ∈ h₂, e.client ≠ a

variable {a b : ι} {place : κ} {m : μ} {r : β} {h : List (Event ι μ κ β)} {e : Event ι μ κ β}

lemma Sent.last : Sent a b place m (h ++ [.sent a b place m]) :=
  ⟨h, [], rfl, by simp⟩

lemma Sent.append (hs : Sent a b place m h) (he : e.client ≠ a) : Sent a b place m (h ++ [e]) := by
  obtain ⟨h₁, h₂, rfl, hquiet⟩ := hs
  refine ⟨h₁, h₂ ++ [e], by simp, ?_⟩
  intro e' he'
  rcases List.mem_append.mp he' with hmem | hmem
  · exact hquiet e' hmem
  · rwa [List.mem_singleton.mp hmem]

lemma Taken.last (hs : Sent a b place m h) : Taken a b place m (h ++ [.taken a b m]) :=
  ⟨h, [], hs, rfl, by simp⟩

lemma Taken.append (ht : Taken a b place m h) (he : e.client ≠ a) (hb : e.actingServer ≠ some b) :
    Taken a b place m (h ++ [e]) := by
  obtain ⟨h₁, h₂, hs, rfl, hquiet⟩ := ht
  refine ⟨h₁, h₂ ++ [e], hs, by simp, ?_⟩
  intro e' he'
  rcases List.mem_append.mp he' with hmem | hmem
  · exact hquiet e' hmem
  · rw [List.mem_singleton.mp hmem]
    exact ⟨he, hb⟩

lemma Answered.last (ht : Taken a b place m h) : Answered a place r (h ++ [.answered a b r]) :=
  ⟨b, m, h, [], ht, rfl, by simp⟩

lemma Answered.append (ha : Answered a place r h) (he : e.client ≠ a) :
    Answered a place r (h ++ [e]) := by
  obtain ⟨b, m, h₁, h₂, ht, rfl, hquiet⟩ := ha
  refine ⟨b, m, h₁, h₂ ++ [e], ht, by simp, ?_⟩
  intro e' he'
  rcases List.mem_append.mp he' with hmem | hmem
  · exact hquiet e' hmem
  · rwa [List.mem_singleton.mp hmem]

end History

/-- The messages that were sent to `b`, with their clients. -/
def sentTo (b : ι) (h : List (Event ι μ κ β)) : List (ι × μ) :=
  h.filterMap fun
    | .sent client server _ message => if server = b then some (client, message) else none
    | _ => none

/-- The messages that `b` has taken, with their clients. -/
def takenBy (b : ι) (h : List (Event ι μ κ β)) : List (ι × μ) :=
  h.filterMap fun
    | .taken client server message => if server = b then some (client, message) else none
    | _ => none

/-- **The history invariant.**  What a live participant has taken and what is in its queue is, in
order, what was sent to it; what a client waits for or was answered has happened; and nobody goes on
with an answer that was not given to its message. -/
structure HistoryInv (s : State ι μ κ β) : Prop where
  unused : ∀ {b}, b ∉ s.used → sentTo b s.history = []
  taken : ∀ b, takenBy b s.history <+: sentTo b s.history
  live : ∀ {b q}, s.peer b = some q → q.status ≠ .done →
    takenBy b s.history ++ q.queue = sentTo b s.history
  queued : ∀ {a p b place q m}, s.peer a = some p → p.status = .waiting b place →
    s.peer b = some q → (a, m) ∈ q.queue → Sent a b place m s.history
  served : ∀ {a p b place q}, s.peer a = some p → p.status = .waiting b place →
    s.peer b = some q → q.serving = some a → ∃ m, Taken a b place m s.history
  answered : ∀ {a p place r}, s.peer a = some p → p.status = .answered place r →
    Answered a place r s.history
  resumed : ∀ {h₁ h₂ a place r}, s.history = h₁ ++ .resumed a place r :: h₂ →
    Answered a place r h₁

namespace HistoryInv

variable {s s' : State ι μ κ β} {a b : ι} {p q : Peer ι μ κ β} {place : κ} {m : μ} {r : β}

omit [DecidableEq ι] in
/-- An event that is not the last one of a list has happened before. -/
lemma split_of_ne {h h₁ h₂ : List (Event ι μ κ β)} {e x : Event ι μ κ β} (hne : e ≠ x)
    (hsplit : h ++ [e] = h₁ ++ x :: h₂) : ∃ h₃, h = h₁ ++ x :: h₃ := by
  rcases List.eq_nil_or_concat h₂ with rfl | ⟨h₃, y, rfl⟩
  · exact absurd (List.append_inj_right' hsplit rfl) (by simpa using hne)
  · refine ⟨h₃, ?_⟩
    rw [List.concat_eq_append, ← List.cons_append, ← List.append_assoc] at hsplit
    exact List.append_inj_left' hsplit rfl

lemma initial (h : Initial s) : HistoryInv s where
  unused _ := by simp [h.history, sentTo]
  taken b := by simp [h.history, takenBy, sentTo]
  live hb _ := by
    rw [h.new _ _ hb]
    simp [h.history, takenBy, sentTo, Peer.new]
  queued ha hw := by
    rw [h.new _ _ ha] at hw
    cases hw
  served ha hw := by
    rw [h.new _ _ ha] at hw
    cases hw
  answered ha hw := by
    rw [h.new _ _ ha] at hw
    cases hw
  resumed hsplit := by
    rw [h.history] at hsplit
    simp at hsplit

/-- How a participant may look after a step that nobody can observe. -/
def Quieter (p p' : Peer ι μ κ β) : Prop :=
  (p'.status = .done ∨ p'.status = p.status ∧ p'.queue = p.queue) ∧ p'.queue ⊆ p.queue ∧
    ∀ a, p'.serving = some a → p.serving = some a

/-- Steps that nobody can observe keep the invariant. -/
lemma quiet (h : HistoryInv s) (hused : s.used ⊆ s'.used) (hhistory : s'.history = s.history)
    (hpeer : ∀ c t, s'.peer c = some t →
      (t = .new ∧ c ∉ s.used) ∨ ∃ t₀, s.peer c = some t₀ ∧ Quieter t₀ t) : HistoryInv s' := by
  have hwaited : ∀ {c t d place}, s'.peer c = some t → t.status = .waiting d place →
      ∃ t₀, s.peer c = some t₀ ∧ t₀.status = .waiting d place := by
    intro c t d place hc hw
    rcases hpeer c t hc with ⟨rfl, -⟩ | ⟨t₀, hc₀, hdone | ⟨hsame, -⟩, -⟩
    · cases hw
    · rw [hdone] at hw
      cases hw
    · exact ⟨t₀, hc₀, hsame ▸ hw⟩
  refine ⟨?_, ?_, ?_, ?_, ?_, ?_, ?_⟩
  · intro b hb
    rw [hhistory]
    exact h.unused fun hmem => hb (hused hmem)
  · intro b
    rw [hhistory]
    exact h.taken b
  · intro b t hb hlive
    rw [hhistory]
    rcases hpeer b t hb with ⟨rfl, hnew⟩ | ⟨t₀, hb₀, hdone | ⟨hsame, hqueue⟩, -⟩
    · have hnone := h.unused hnew
      have htaken := h.taken b
      rw [hnone, List.prefix_nil] at htaken
      rw [hnone, htaken]
      rfl
    · exact absurd hdone hlive
    · rw [hqueue]
      exact h.live hb₀ (hsame ▸ hlive)
  · intro c t d place t' m hc hw hd hmem
    rw [hhistory]
    obtain ⟨t₀, hc₀, hw₀⟩ := hwaited hc hw
    rcases hpeer d t' hd with ⟨rfl, -⟩ | ⟨t'₀, hd₀, -, hsub, -⟩
    · cases hmem
    · exact h.queued hc₀ hw₀ hd₀ (hsub hmem)
  · intro c t d place t' hc hw hd hserving
    rw [hhistory]
    obtain ⟨t₀, hc₀, hw₀⟩ := hwaited hc hw
    rcases hpeer d t' hd with ⟨rfl, -⟩ | ⟨t'₀, hd₀, -, -, hserved⟩
    · cases hserving
    · exact h.served hc₀ hw₀ hd₀ (hserved c hserving)
  · intro c t place r hc hw
    rw [hhistory]
    rcases hpeer c t hc with ⟨rfl, -⟩ | ⟨t₀, hc₀, hdone | ⟨hsame, -⟩, -⟩
    · cases hw
    · rw [hdone] at hw
      cases hw
    · exact h.answered hc₀ (hsame ▸ hw)
  · intro h₁ h₂ a place r hsplit
    exact h.resumed (hhistory ▸ hsplit)

/-- `quiet` where a single participant changes. -/
lemma quiet_put {q' : Peer ι μ κ β} (h : HistoryInv s) (hb : s.peer b = some q)
    (hq : Quieter q q') : HistoryInv (s.put b q') := by
  refine h.quiet (Set.Subset.refl _) rfl fun c t hc => Or.inr ?_
  rw [State.put_peer] at hc
  split at hc
  · next heq =>
      cases hc
      subst heq
      exact ⟨q, hb, hq⟩
  · exact ⟨t, hc, Or.inr ⟨rfl, rfl⟩, List.Subset.refl _, fun _ => id⟩

lemma sentTo_append (b : ι) (h : List (Event ι μ κ β)) (e : Event ι μ κ β) :
    sentTo b (h ++ [e]) = sentTo b h ++ sentTo b [e] := List.filterMap_append

lemma takenBy_append (b : ι) (h : List (Event ι μ κ β)) (e : Event ι μ κ β) :
    takenBy b (h ++ [e]) = takenBy b h ++ takenBy b [e] := List.filterMap_append

/-- What the invariant says of one client. -/
structure Followed (s : State ι μ κ β) (a : ι) : Prop where
  queued : ∀ {p b place q m}, s.peer a = some p → p.status = .waiting b place →
    s.peer b = some q → (a, m) ∈ q.queue → Sent a b place m s.history
  served : ∀ {p b place q}, s.peer a = some p → p.status = .waiting b place →
    s.peer b = some q → q.serving = some a → ∃ m, Taken a b place m s.history
  answered : ∀ {p place r}, s.peer a = some p → p.status = .answered place r →
    Answered a place r s.history

omit [DecidableEq ι] in
/-- A client that waits for nobody can only have been answered. -/
lemma Followed.of_not_waiting (ha : s.peer a = some p)
    (hwaiting : ∀ b place, p.status ≠ .waiting b place)
    (hanswered : ∀ place r, p.status = .answered place r → Answered a place r s.history) :
    Followed s a where
  queued hc hw := by
    cases ha.symm.trans hc
    exact absurd hw (hwaiting _ _)
  served hc hw := by
    cases ha.symm.trans hc
    exact absurd hw (hwaiting _ _)
  answered hc hw := by
    cases ha.symm.trans hc
    exact hanswered _ _ hw

/-- How a participant may look after an event: only the event's own client changes its status and
gets into a queue or is served. -/
structure Noted (e : Event ι μ κ β) (b : ι) (q q' : Peer ι μ κ β) : Prop where
  status : b ≠ e.client → q'.status = q.status
  live : q'.status ≠ .done → q.status ≠ .done
  queue : takenBy b [e] ++ q'.queue = q.queue ++ sentTo b [e]
  serving : ∀ {a}, a ≠ e.client → q'.serving = some a →
    q.serving = some a ∧ e.actingServer ≠ some b

/-- Whoever has no part in an event looks the same after it. -/
lemma Noted.same {e : Event ι μ κ β} (hsent : sentTo b [e] = []) (htaken : takenBy b [e] = [])
    (hacting : e.actingServer ≠ some b) : Noted e b q q where
  status _ := rfl
  live := id
  queue := by rw [hsent, htaken, List.append_nil, List.nil_append]
  serving _ hserve := ⟨hserve, hacting⟩

lemma mem_sentTo_singleton {e : Event ι μ κ β} (h : (a, m) ∈ sentTo b [e]) : a = e.client := by
  obtain ⟨e', he', hsome⟩ := List.mem_filterMap.mp h
  rw [List.mem_singleton.mp he'] at hsome
  cases e with
  | sent client server place' message =>
      dsimp only at hsome
      split at hsome
      · cases hsome
        rfl
      · cases hsome
  | taken | answered | resumed => cases hsome

lemma Noted.mem_queue {e : Event ι μ κ β} {q' : Peer ι μ κ β} (h : Noted e b q q')
    (hne : a ≠ e.client) (hmem : (a, m) ∈ q'.queue) : (a, m) ∈ q.queue := by
  have hboth : (a, m) ∈ q.queue ++ sentTo b [e] := by
    rw [← h.queue]
    exact List.mem_append_right _ hmem
  rcases List.mem_append.mp hboth with hold | hnew
  · exact hold
  · exact absurd (mem_sentTo_singleton hnew) hne

/-- Steps that are observed keep the invariant for everyone but the client of the event. -/
lemma observed {e : Event ι μ κ β} (h : HistoryInv s) (hused : s'.used = s.used)
    (hhistory : s'.history = s.history ++ [e]) (hsent : ∀ b ∉ s.used, sentTo b [e] = [])
    (htaken : ∀ b, takenBy b [e] = [] ∨ ∃ q, s'.peer b = some q ∧ q.status ≠ .done)
    (hpeer : ∀ c t, s'.peer c = some t → ∃ t₀, s.peer c = some t₀ ∧ Noted e c t₀ t)
    (hclient : Followed s' e.client)
    (hresumed : ∀ a place r, e = .resumed a place r → Answered a place r s.history) :
    HistoryInv s' := by
  have hlive : ∀ {b t}, s'.peer b = some t → t.status ≠ .done →
      takenBy b s'.history ++ t.queue = sentTo b s'.history := by
    intro b t hb hnotdone
    obtain ⟨t₀, hb₀, hnoted⟩ := hpeer b t hb
    rw [hhistory, sentTo_append, takenBy_append, List.append_assoc, hnoted.queue,
      ← List.append_assoc, h.live hb₀ (hnoted.live hnotdone)]
  refine ⟨?_, ?_, hlive, ?_, ?_, ?_, ?_⟩
  · intro b hb
    rw [hused] at hb
    rw [hhistory, sentTo_append, h.unused hb, hsent b hb]
    rfl
  · intro b
    rcases htaken b with hnone | ⟨t, hb, hnotdone⟩
    · rw [hhistory, sentTo_append, takenBy_append, hnone, List.append_nil]
      exact (h.taken b).trans (List.prefix_append _ _)
    · exact ⟨t.queue, hlive hb hnotdone⟩
  · intro c t d place t' m hc hw hd hmem
    by_cases hce : c = e.client
    · subst hce
      exact hclient.queued hc hw hd hmem
    · obtain ⟨t₀, hc₀, hnoted⟩ := hpeer c t hc
      obtain ⟨t'₀, hd₀, hnoted'⟩ := hpeer d t' hd
      rw [hnoted.status hce] at hw
      rw [hhistory]
      exact (h.queued hc₀ hw hd₀ (hnoted'.mem_queue hce hmem)).append (Ne.symm hce)
  · intro c t d place t' hc hw hd hserve
    by_cases hce : c = e.client
    · subst hce
      exact hclient.served hc hw hd hserve
    · obtain ⟨t₀, hc₀, hnoted⟩ := hpeer c t hc
      obtain ⟨t'₀, hd₀, hnoted'⟩ := hpeer d t' hd
      rw [hnoted.status hce] at hw
      obtain ⟨hserve₀, hacting⟩ := hnoted'.serving hce hserve
      obtain ⟨m, ht⟩ := h.served hc₀ hw hd₀ hserve₀
      rw [hhistory]
      exact ⟨m, ht.append (Ne.symm hce) hacting⟩
  · intro c t place r hc hw
    by_cases hce : c = e.client
    · subst hce
      exact hclient.answered hc hw
    · obtain ⟨t₀, hc₀, hnoted⟩ := hpeer c t hc
      rw [hnoted.status hce] at hw
      rw [hhistory]
      exact (h.answered hc₀ hw).append (Ne.symm hce)
  · intro h₁ h₂ a place r hsplit
    rw [hhistory] at hsplit
    by_cases hlast : e = .resumed a place r
    · rcases List.eq_nil_or_concat h₂ with rfl | ⟨h₃, y, rfl⟩
      · exact List.append_inj_left' hsplit rfl ▸ hresumed a place r hlast
      · rw [List.concat_eq_append, ← List.cons_append, ← List.append_assoc] at hsplit
        exact h.resumed (List.append_inj_left' hsplit rfl)
    · obtain ⟨h₃, hold⟩ := split_of_ne hlast hsplit
      exact h.resumed hold

lemma send (h : HistoryInv s) (hi : Inv s) (m : μ) (hne : a ≠ b) (hp : s.peer a = some p)
    (hidle : p.status = .idle) (hq : s.peer b = some q) :
    HistoryInv (((s.put a { p with status := .waiting b place }).put b
      { q with queue := q.queue ++ [(a, m)] }).note (.sent a b place m)) := by
  have hnot : ∀ {d t}, s.peer d = some t → a ∉ t.pending := fun hd =>
    hi.not_pending hp hd (by simp [hidle]) (by simp [hidle])
  have ha : ((s.put a { p with status := .waiting b place }).put b
      { q with queue := q.queue ++ [(a, m)] }).peer a =
      some { p with status := .waiting b place } := by
    simp [State.put_peer, hne]
  have hb : ((s.put a { p with status := .waiting b place }).put b
      { q with queue := q.queue ++ [(a, m)] }).peer b =
      some { q with queue := q.queue ++ [(a, m)] } := by
    simp [State.put_peer]
  refine h.observed (e := .sent a b place m) rfl rfl ?_ (fun d => Or.inl rfl) ?_ ?_ ?_
  · intro d hd
    have hdb : b ≠ d := by
      rintro rfl
      exact hd (hi.used hq)
    simp [sentTo, hdb]
  · intro c t hc
    rw [State.note_peer, State.put_peer, State.put_peer] at hc
    split at hc
    · next hcb =>
        cases hc
        subst hcb
        exact ⟨q, hq, fun _ => rfl, id, by simp [sentTo, takenBy],
          fun _ hserve => ⟨hserve, by simp [Event.actingServer]⟩⟩
    · next hcb =>
        have hother : b ≠ c := Ne.symm hcb
        split at hc
        · next hca =>
            cases hc
            subst hca
            exact ⟨p, hp, fun hne' => absurd rfl hne', fun _ => by simp [hidle],
              by simp [sentTo, takenBy, hother],
              fun _ hserve => ⟨hserve, by simp [Event.actingServer]⟩⟩
        · exact ⟨t, hc, .same (by simp [sentTo, hother]) rfl (by simp [Event.actingServer])⟩
  · refine ⟨?_, ?_, ?_⟩
    · intro p' d place' q' m' hc hw hd hmem
      cases ha.symm.trans hc
      cases hw
      cases hb.symm.trans hd
      rcases List.mem_append.mp hmem with hmem | hmem
      · exact absurd (List.mem_append_right _ (List.mem_map.mpr ⟨(a, m'), hmem, rfl⟩)) (hnot hq)
      · cases List.mem_singleton.mp hmem
        exact .last
    · intro p' d place' q' hc hw hd hserve
      cases ha.symm.trans hc
      cases hw
      cases hb.symm.trans hd
      exact absurd (by simp [Peer.pending, show q.serving = some a from hserve]) (hnot hq)
    · intro p' place' r hc hw
      cases ha.symm.trans hc
      cases hw
  · intro c place' r hresumed
    cases hresumed

lemma take {rest : List (ι × μ)} (h : HistoryInv s) (hi : Inv s) (hq : s.peer b = some q)
    (hidle : q.status = .idle) (hqueue : q.queue = (a, m) :: rest) :
    HistoryInv ((s.put b { q with queue := rest, serving := some a }).note (.taken a b m)) := by
  have hfirst : a ∈ q.pending := by simp [Peer.pending, hqueue]
  have hrest : ∀ m', (a, m') ∉ rest := by
    intro m' hmem
    have hnodup := (List.nodup_append.mp (hi.nodup hq)).2.1
    rw [hqueue, List.map_cons] at hnodup
    exact (List.nodup_cons.mp hnodup).1 (List.mem_map.mpr ⟨(a, m'), hmem, rfl⟩)
  have hb : (s.put b { q with queue := rest, serving := some a }).peer b =
      some { q with queue := rest, serving := some a } := by
    simp [State.put_peer]
  have hstatus : ∀ {c t}, (s.put b { q with queue := rest, serving := some a }).peer c = some t →
      ∃ t₀, s.peer c = some t₀ ∧ t.status = t₀.status := by
    intro c t hc
    rw [State.put_peer] at hc
    split at hc
    · next hcb =>
        cases hc
        subst hcb
        exact ⟨q, hq, rfl⟩
    · exact ⟨t, hc, rfl⟩
  have hwaits : ∀ {t d place}, s.peer a = some t → t.status = .waiting d place → d = b := by
    intro t d place ha hw
    rcases hi.client hq hfirst ha with hdone | ⟨place', hw'⟩
    · rw [hw] at hdone
      cases hdone
    · rw [hw] at hw'
      cases hw'
      rfl
  refine h.observed (e := .taken a b m) rfl rfl (fun _ _ => rfl) ?_ ?_ ?_ ?_
  · intro d
    by_cases hdb : d = b
    · subst hdb
      exact Or.inr ⟨_, hb, by simp [hidle]⟩
    · exact Or.inl (by simp [takenBy, Ne.symm hdb])
  · intro c t hc
    rw [State.note_peer, State.put_peer] at hc
    split at hc
    · next hcb =>
        cases hc
        subst hcb
        refine ⟨q, hq, fun _ => rfl, id, by simp [sentTo, takenBy, hqueue], ?_⟩
        intro d hda hserve
        cases hserve
        exact absurd rfl hda
    · next hcb =>
        have hother : b ≠ c := Ne.symm hcb
        exact ⟨t, hc, .same rfl (by simp [takenBy, hother]) (by simp [Event.actingServer, hother])⟩
  · refine ⟨?_, ?_, ?_⟩
    · intro p' d place' q' m' hc hw hd hmem
      obtain ⟨t₀, hc₀, hsame⟩ := hstatus hc
      obtain rfl := hwaits hc₀ (hsame ▸ hw)
      cases hb.symm.trans hd
      exact absurd hmem (hrest m')
    · intro p' d place' q' hc hw hd hserve
      obtain ⟨t₀, hc₀, hsame⟩ := hstatus hc
      obtain rfl := hwaits hc₀ (hsame ▸ hw)
      refine ⟨m, .last (h.queued hc₀ (hsame ▸ hw) hq ?_)⟩
      rw [hqueue]
      exact List.mem_cons_self
    · intro p' place' r hc hw
      obtain ⟨t₀, hc₀, hsame⟩ := hstatus hc
      rw [hsame] at hw
      rcases hi.client hq hfirst hc₀ with hdone | ⟨place, hwaiting⟩
      · rw [hw] at hdone
        cases hdone
      · rw [hw] at hwaiting
        cases hwaiting
  · intro c place' r hresumed
    cases hresumed

lemma answer (h : HistoryInv s) (r : β) (hq : s.peer b = some q) (hidle : q.status = .idle)
    (hserving : q.serving = some a) (hp : s.peer a = some p)
    (hwaiting : p.status = .waiting b place) :
    HistoryInv (((s.put b { q with serving := none }).put a
      { p with status := .answered place r }).note (.answered a b r)) := by
  have hne : a ≠ b := by
    rintro rfl
    rw [hp] at hq
    cases hq
    rw [hidle] at hwaiting
    cases hwaiting
  have ha : ((s.put b { q with serving := none }).put a
      { p with status := .answered place r }).peer a =
      some { p with status := .answered place r } := by
    simp [State.put_peer]
  refine h.observed (e := .answered a b r) rfl rfl (fun _ _ => rfl) (fun _ => Or.inl rfl) ?_ ?_ ?_
  · intro c t hc
    rw [State.note_peer, State.put_peer, State.put_peer] at hc
    split at hc
    · next hca =>
        cases hc
        subst hca
        exact ⟨p, hp, fun hne' => absurd rfl hne', fun _ => by simp [hwaiting],
          by simp [sentTo, takenBy],
          fun _ hserve => ⟨hserve, by simpa [Event.actingServer] using hne.symm⟩⟩
    · split at hc
      · next hcb =>
          cases hc
          subst hcb
          exact ⟨q, hq, fun _ => rfl, id, by simp [sentTo, takenBy],
            fun _ hserve => by cases hserve⟩
      · next hcb =>
          exact ⟨t, hc, .same rfl rfl (by simpa [Event.actingServer] using Ne.symm hcb)⟩
  · refine .of_not_waiting ha (fun _ _ hw => by cases hw) fun place' r' hanswered => ?_
    cases hanswered
    obtain ⟨m', ht⟩ := h.served hp hwaiting hq hserving
    exact .last ht
  · intro c place' r' hresumed
    cases hresumed

lemma resume (h : HistoryInv s) (hp : s.peer a = some p)
    (hanswered : p.status = .answered place r) :
    HistoryInv ((s.put a { p with status := .idle }).note (.resumed a place r)) := by
  have ha : (s.put a { p with status := .idle }).peer a = some { p with status := .idle } := by
    simp [State.put_peer]
  refine h.observed (e := .resumed a place r) rfl rfl (fun _ _ => rfl) (fun _ => Or.inl rfl)
    ?_ ?_ ?_
  · intro c t hc
    rw [State.note_peer, State.put_peer] at hc
    split at hc
    · next hca =>
        cases hc
        subst hca
        exact ⟨p, hp, fun hne' => absurd rfl hne', fun _ => by simp [hanswered],
          by simp [sentTo, takenBy], fun _ hserve => ⟨hserve, by simp [Event.actingServer]⟩⟩
    · exact ⟨t, hc, .same rfl rfl (by simp [Event.actingServer])⟩
  · exact .of_not_waiting ha (fun _ _ hw => by cases hw) fun _ _ hw => by cases hw
  · -- the participant goes on now, with the answer that it has
    intro c place' r' hresumed
    cases hresumed
    exact h.answered hp hanswered

/-- **Every step keeps the history invariant.** -/
theorem step (h : HistoryInv s) (hi : Inv s) (hstep : Step s s') : HistoryInv s' := by
  cases hstep with
  | send place m hne hp hidle hq => exact h.send hi m hne hp hidle hq
  | take hq hidle hserving hqueue => exact h.take hi hq hidle hqueue
  | discard hq hidle hserving hqueue =>
      refine h.quiet_put hq ⟨Or.inl rfl, ?_, fun _ => id⟩
      rw [hqueue]
      exact List.subset_cons_self _ _
  | answer r hq hidle hserving hp hwaiting => exact h.answer r hq hidle hserving hp hwaiting
  | abandon hq hidle =>
      exact h.quiet_put hq ⟨Or.inl rfl, List.Subset.refl _, fun _ hnone => by cases hnone⟩
  | resume hp hanswered => exact h.resume hp hanswered
  | finish hp hwaiting => exact h.quiet_put hp ⟨Or.inl rfl, List.Subset.refl _, fun _ => id⟩
  | orphan hp hwaiting hdead =>
      exact h.quiet_put hp ⟨Or.inl rfl, List.Subset.refl _, fun _ => id⟩
  | @remove a p hp hdone =>
      refine h.quiet (Set.Subset.refl _) rfl fun c t hc => Or.inr ?_
      have hc' : Function.update s.peer a none c = some t := hc
      rw [Function.update_apply] at hc'
      split at hc'
      · cases hc'
      · exact ⟨t, hc', Or.inr ⟨rfl, rfl⟩, List.Subset.refl _, fun _ => id⟩
  | @join a hnew =>
      refine h.quiet (Set.subset_insert _ _) rfl fun c t hc => ?_
      have hc' : (s.put a Peer.new).peer c = some t := hc
      rw [State.put_peer] at hc'
      split at hc'
      · next heq =>
          cases hc'
          exact Or.inl ⟨rfl, heq ▸ hnew⟩
      · exact Or.inr ⟨t, hc', Or.inr ⟨rfl, rfl⟩, List.Subset.refl _, fun _ => id⟩

end HistoryInv

/-- The history invariant holds throughout every run. -/
theorem Run.historyInv {s s' : State ι μ κ β} (hi : Inv s) (h : HistoryInv s) (run : Run s s') :
    HistoryInv s' := by
  induction run with
  | refl => exact h
  | tail hrun hstep ih => exact ih.step (Run.inv hi hrun) hstep

/-! ## Who goes on -/

/-- The last thing that a client has done is to go on with an answer, if it has done anything. -/
def Rested (a : ι) (h : List (Event ι μ κ β)) : Prop :=
  ∀ h₁ e h₂, h = h₁ ++ e :: h₂ → e.client = a → (∀ e' ∈ h₂, e'.client ≠ a) →
    ∃ place r, e = .resumed a place r

section Rested

omit [DecidableEq ι]

variable {a : ι} {h : List (Event ι μ κ β)} {e : Event ι μ κ β}

lemma Rested.of_not_mem (hnone : ∀ e ∈ h, e.client ≠ a) : Rested a h := by
  rintro h₁ e h₂ rfl hclient -
  exact absurd hclient (hnone e (List.mem_append_right _ List.mem_cons_self))

lemma Rested.append (hrested : Rested a h) (he : e.client ≠ a) : Rested a (h ++ [e]) := by
  intro h₁ x h₂ hsplit hclient hquiet
  rcases List.eq_nil_or_concat h₂ with rfl | ⟨h₃, y, rfl⟩
  · have hlast := List.append_inj_right' hsplit rfl
    cases hlast
    exact absurd hclient he
  · rw [List.concat_eq_append, ← List.cons_append, ← List.append_assoc] at hsplit
    refine hrested h₁ x h₃ (List.append_inj_left' hsplit rfl) hclient fun e' he' => hquiet e' ?_
    rw [List.concat_eq_append]
    exact List.mem_append_left _ he'

lemma Rested.last {place : κ} {r : β} : Rested a (h ++ [.resumed a place r]) := by
  intro h₁ x h₂ hsplit hclient hquiet
  rcases List.eq_nil_or_concat h₂ with rfl | ⟨h₃, y, rfl⟩
  · have hlast := List.append_inj_right' hsplit rfl
    cases hlast
    exact ⟨place, r, rfl⟩
  · rw [List.concat_eq_append, ← List.cons_append, ← List.append_assoc] at hsplit
    have hlast := List.append_inj_right' hsplit rfl
    cases hlast
    exact absurd rfl (hquiet (.resumed a place r) (by simp))

end Rested

/-- Nobody goes on but with an answer. -/
structure AtRest (s : State ι μ κ β) : Prop where
  client_used : ∀ e ∈ s.history, e.client ∈ s.used
  idle : ∀ {a p}, s.peer a = some p → p.status = .idle → Rested a s.history

namespace AtRest

variable {s s' : State ι μ κ β} {a b : ι} {p q : Peer ι μ κ β} {place : κ} {m : μ} {r : β}

omit [DecidableEq ι] in
lemma initial (h : Initial s) : AtRest s where
  client_used e he := by simp [h.history] at he
  idle _ _ := by simp [Rested, h.history]

omit [DecidableEq ι] in
/-- Steps that nobody can observe. -/
lemma quiet (h : AtRest s) (hused : s.used ⊆ s'.used) (hhistory : s'.history = s.history)
    (hpeer : ∀ c t, s'.peer c = some t → t.status = .idle →
      c ∉ s.used ∨ ∃ t₀, s.peer c = some t₀ ∧ t₀.status = .idle) : AtRest s' where
  client_used e he := hused (h.client_used e (hhistory ▸ he))
  idle hc hidle := by
    rw [hhistory]
    rcases hpeer _ _ hc hidle with hnew | ⟨t₀, hc₀, hidle₀⟩
    · refine .of_not_mem fun e he hclient => hnew ?_
      exact hclient ▸ h.client_used e he
    · exact h.idle hc₀ hidle₀

omit [DecidableEq ι] in
/-- Steps that a client can observe which is not idle afterwards. -/
lemma observed {e : Event ι μ κ β} (h : AtRest s) (hused : s'.used = s.used)
    (hhistory : s'.history = s.history ++ [e]) (hclient : e.client ∈ s.used)
    (hpeer : ∀ c t, s'.peer c = some t → t.status = .idle →
      c ≠ e.client ∧ ∃ t₀, s.peer c = some t₀ ∧ t₀.status = .idle) : AtRest s' where
  client_used e' he' := by
    rw [hhistory] at he'
    rw [hused]
    rcases List.mem_append.mp he' with hold | hnew
    · exact h.client_used e' hold
    · rwa [List.mem_singleton.mp hnew]
  idle hc hidle := by
    rw [hhistory]
    obtain ⟨hne, t₀, hc₀, hidle₀⟩ := hpeer _ _ hc hidle
    exact (h.idle hc₀ hidle₀).append hne.symm

/-- A single participant that is idle afterwards was idle before. -/
lemma put_idle {p' : Peer ι μ κ β} (hp : s.peer a = some p)
    (hidle : p'.status = .idle → p.status = .idle) {c : ι} {t : Peer ι μ κ β}
    (hc : (s.put a p').peer c = some t) (ht : t.status = .idle) :
    ∃ t₀, s.peer c = some t₀ ∧ t₀.status = .idle := by
  rw [State.put_peer] at hc
  split at hc
  · next heq =>
      cases hc
      subst heq
      exact ⟨p, hp, hidle ht⟩
  · exact ⟨t, hc, ht⟩

/-- **Every step lets nobody go on without an answer.** -/
theorem step (h : AtRest s) (hi : Inv s) (hstep : Step s s') : AtRest s' := by
  cases hstep with
  | @send a b p q place m hne hp hidle hq =>
      refine h.observed (e := .sent a b place m) rfl rfl (hi.used hp) fun c t hc ht => ?_
      rw [State.note_peer] at hc
      obtain ⟨t₀, hc₀, hstatus, -⟩ := Inv.send_cases hne hp hq hc
      rcases hstatus with ⟨-, -, hwaiting⟩ | ⟨hca, hsame⟩
      · rw [hwaiting] at ht
        cases ht
      · exact ⟨hca, t₀, hc₀, hsame ▸ ht⟩
  | @take a b q m rest hq hidle hserving hqueue =>
      have hpending : a ∈ q.pending := by simp [Peer.pending, hqueue]
      refine h.observed (e := .taken a b m) rfl rfl (hi.client_used hq hpending) fun c t hc ht => ?_
      rw [State.note_peer] at hc
      obtain ⟨t₀, hc₀, hidle₀⟩ := put_idle hq (fun _ => hidle) hc ht
      refine ⟨?_, t₀, hc₀, hidle₀⟩
      rintro rfl
      rcases hi.client hq hpending hc₀ with hdone | ⟨place, hw⟩
      · rw [hidle₀] at hdone
        cases hdone
      · rw [hidle₀] at hw
        cases hw
  | discard hq hidle hserving hqueue =>
      exact h.quiet (Set.Subset.refl _) rfl fun c t hc ht =>
        Or.inr (put_idle hq (fun _ => hidle) hc ht)
  | @answer a b p q place r hq hidle hserving hp hwaiting =>
      refine h.observed (e := .answered a b r) rfl rfl (hi.used hp) fun c t hc ht => ?_
      rw [State.note_peer] at hc
      obtain ⟨t₀, hc₀, hstatus, -⟩ := Inv.answer_cases hq hidle hserving hp hwaiting hc
      rcases hstatus with ⟨-, hanswered⟩ | ⟨hca, hsame⟩
      · rw [hanswered] at ht
        cases ht
      · exact ⟨hca, t₀, hc₀, hsame ▸ ht⟩
  | abandon hq hidle =>
      exact h.quiet (Set.Subset.refl _) rfl fun c t hc ht =>
        Or.inr (put_idle hq (fun _ => hidle) hc ht)
  | @resume a p place r hp hanswered =>
      refine ⟨fun e he => ?_, fun {c t} hc ht => ?_⟩
      · rcases List.mem_append.mp he with hold | hnew
        · exact h.client_used e hold
        · rw [List.mem_singleton.mp hnew]
          exact hi.used hp
      · rw [State.note_peer, State.put_peer] at hc
        split at hc
        · next heq =>
            rw [heq]
            exact .last
        · next hne => exact (h.idle hc ht).append fun heq => hne heq.symm
  | finish hp hwaiting =>
      exact h.quiet (Set.Subset.refl _) rfl fun c t hc ht =>
        Or.inr (put_idle hp (fun hdone => by cases hdone) hc ht)
  | orphan hp hwaiting hdead =>
      exact h.quiet (Set.Subset.refl _) rfl fun c t hc ht =>
        Or.inr (put_idle hp (fun hdone => by cases hdone) hc ht)
  | @remove a p hp hdone =>
      refine h.quiet (Set.Subset.refl _) rfl fun c t hc ht => Or.inr ⟨t, ?_, ht⟩
      have hc' : Function.update s.peer a none c = some t := hc
      rw [Function.update_apply] at hc'
      split at hc'
      · cases hc'
      · exact hc'
  | @join a hnew =>
      refine h.quiet (Set.subset_insert _ _) rfl fun c t hc ht => ?_
      have hc' : (s.put a Peer.new).peer c = some t := hc
      rw [State.put_peer] at hc'
      split at hc'
      · next heq => exact Or.inl (heq ▸ hnew)
      · exact Or.inr ⟨t, hc', ht⟩

end AtRest

/-- Nobody goes on without an answer throughout every run. -/
theorem Run.atRest {s s' : State ι μ κ β} (hi : Inv s) (h : AtRest s) (run : Run s s') :
    AtRest s' := by
  induction run with
  | refl => exact h
  | tail hrun hstep ih => exact ih.step (Run.inv hi hrun) hstep

end Rendezvous
