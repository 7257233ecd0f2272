import DeravelOs.Server.Authority

/-!
# Contracts of servers

How to prove something about a server in all of its runs, without a word about certificates or the
loop.  A contract says what holds of the state between two calls, which objects there can be, how the
state can change, and what an object may give away.  It is enough to show for each method and each
observer, by itself, that it keeps the contract.

* `Behaviour.Ensures`: what a behaviour returns and what it grants, with a rule for each way to build
  one.
* `Contract`, `Contract.Kept`: a contract, and the methods and observers that keep it.
* `Contract.Holds.run`: it is kept in all runs.
* `Contract.Holds.sandboxed`: what a process gets derives from what it was given by others.
* `Dispatch.Records.run`: what the server has been called with and has observed, in order.
* `Dispatch.Moves.run`: what holds of a run because it holds of each method that returns, without any
  assumption about messages.
-/

namespace Deravel

open Failure

variable {Obj α β S V : Type} {pid : ProcessId} {grantee : Actor} {world world' : World Obj}
  {E E' : Panic → Prop}

namespace Behaviour

/-! ## Sequences -/

/-- One behaviour, and then one that depends on its result. -/
def bind : Behaviour Obj α → (α → Behaviour Obj β) → Behaviour Obj β
  | .done a, f => f a
  | .panic e, _ => .panic e
  | .grant object next, f => .grant object fun cap => (next cap).bind f
  | .forward cap forwardee next, f => .forward cap forwardee fun cap => (next cap).bind f

instance : Monad (Behaviour Obj) where
  pure := .done
  bind := bind

/-- What has nothing to do with capabilities. -/
def ofChecked : Checked α → Behaviour Obj α
  | .ok a => .done a
  | .error e => .panic e

instance : MonadLift Checked (Behaviour Obj) := ⟨ofChecked⟩

/-- `grant_to_sender` and `grant_to_kernel` -/
def grantObject (object : Obj) : Behaviour Obj RawCapability := .grant object .done

/-- `forward` -/
def forwardTo (cap : RawCapability) (forwardee : Actor) : Behaviour Obj RawCapability :=
  .forward cap forwardee .done

/-- `unwrap` of what `postcard` returns. -/
def fromPostcard (result : Option α) : Checked α :=
  match result with
  | some a => pure a
  | none => throw (.unwrap .postcard)

/-! ## Postconditions -/

/-- A behaviour panics only in `E`, and what it returns and grants is as `Q` says. -/
def Ensures (E : Panic → Prop) : Behaviour Obj α → (α → List Obj → Prop) → Prop
  | .done a, Q => Q a []
  | .panic e, _ => E e
  | .grant object next, Q => ∀ cap, (next cap).Ensures E fun a granted => Q a (object :: granted)
  | .forward _ _ next, Q => ∀ cap, (next cap).Ensures E Q

variable {b : Behaviour Obj α} {f : α → Behaviour Obj β} {a : α} {Q Q' : α → List Obj → Prop}
  {R : β → List Obj → Prop}

lemma Ensures.mono (h : b.Ensures E Q) (hE : ∀ e, E e → E' e)
    (hQ : ∀ a granted, Q a granted → Q' a granted) : b.Ensures E' Q' := by
  induction b generalizing Q Q' with
  | done a => exact hQ a [] h
  | panic e => exact hE e h
  | grant object next ih => exact fun cap => ih cap (h cap) fun a granted => hQ a (object :: granted)
  | forward inner forwardee next ih => exact fun cap => ih cap (h cap) hQ

@[simp] lemma ensures_pure : (pure a : Behaviour Obj α).Ensures E Q ↔ Q a [] := Iff.rfl

@[simp] lemma ensures_panic {e : Panic} : (.panic e : Behaviour Obj α).Ensures E Q ↔ E e := Iff.rfl

@[simp] lemma ensures_bind : (b >>= f).Ensures E R ↔
    b.Ensures E fun a granted => (f a).Ensures E fun c granted' => R c (granted ++ granted') := by
  induction b generalizing R with
  | done a => exact Iff.rfl
  | panic e => exact Iff.rfl
  | grant object next ih => exact forall_congr' fun cap => ih cap
  | forward inner forwardee next ih => exact forall_congr' fun cap => ih cap

@[simp] lemma ensures_grantObject {object : Obj} {Q : RawCapability → List Obj → Prop} :
    (grantObject object).Ensures E Q ↔ ∀ cap, Q cap [object] := Iff.rfl

@[simp] lemma ensures_forwardTo {inner : RawCapability} {forwardee : Actor}
    {Q : RawCapability → List Obj → Prop} :
    (forwardTo inner forwardee).Ensures E Q ↔ ∀ cap, Q cap [] := Iff.rfl

/-- What is lifted fails as before, and grants nothing. -/
lemma ensures_ofChecked {x : Checked α} :
    (ofChecked x : Behaviour Obj α).Ensures E Q ↔ Meets x E fun a => Q a [] := by
  cases x with
  | error e =>
      refine ⟨fun h => .throw h, fun h => ?_⟩
      exact h.1 rfl
  | ok a =>
      refine ⟨fun h => .pure h, fun h => ?_⟩
      exact h.2 a rfl

@[simp] lemma ensures_liftM {x : Checked α} :
    (liftM x : Behaviour Obj α).Ensures E Q ↔ Meets x E fun a => Q a [] := ensures_ofChecked

lemma Ensures.panicsIn (h : b.Ensures E Q) : b.PanicsIn E := by
  induction b generalizing Q with
  | done a => trivial
  | panic e => exact h
  | grant object next ih => exact fun cap => ih cap (h cap)
  | forward inner forwardee next ih => exact fun cap => ih cap (h cap)

/-- What is granted is granted to `grantee`, and handled from then on; nothing else is. -/
lemma run_ensures (h : b.Ensures E Q) (hrun : b.run pid grantee world = .ok (a, world')) :
    ∃ granted added, Q a granted ∧ world'.trace = world.trace ++ added ∧
      world'.newHandlers = world.newHandlers ++ added.filterMap Action.entry ∧
      ∀ action ∈ added, (∃ index object, action = .granted index object grantee ∧ object ∈ granted) ∨
        ∃ index, action = .forwarded index := by
  induction b generalizing Q world with
  | done a' =>
      cases hrun
      exact ⟨[], [], h, by simp, by simp, by simp⟩
  | panic e => cases hrun
  | grant object next ih =>
      rw [run] at hrun
      obtain ⟨⟨cap, slots⟩, -, hrun⟩ := Checked.bind_eq_ok.mp hrun
      obtain ⟨granted, added, hQ, htrace, hnew, hadded⟩ := ih cap (h cap) hrun
      refine ⟨object :: granted, .granted cap.localIndex object grantee :: added, hQ, ?_, ?_, ?_⟩
      · rw [htrace, List.append_assoc]
        rfl
      · rw [hnew, List.append_assoc]
        rfl
      · intro action haction
        rcases List.mem_cons.mp haction with rfl | haction
        · exact Or.inl ⟨_, object, rfl, List.mem_cons_self⟩
        · refine (hadded action haction).imp_left ?_
          rintro ⟨index, other, rfl, hmem⟩
          exact ⟨index, other, rfl, List.mem_cons_of_mem _ hmem⟩
  | forward inner forwardee next ih =>
      rw [run] at hrun
      obtain ⟨⟨cap, slots⟩, -, hrun⟩ := Checked.bind_eq_ok.mp hrun
      obtain ⟨granted, added, hQ, htrace, hnew, hadded⟩ := ih cap (h cap) hrun
      refine ⟨granted, .forwarded cap.localIndex :: added, hQ, ?_, hnew, ?_⟩
      · rw [htrace, List.append_assoc]
        rfl
      · intro action haction
        rcases List.mem_cons.mp haction with rfl | haction
        · exact Or.inr ⟨_, rfl⟩
        · exact hadded action haction

end Behaviour

/-! ## Contracts -/

/-- What is promised of a server: `Inv` between two calls, `Valid` of its objects, `Later` of its state
as time goes by, `Derives` of what is granted when an object is called, and `Answers` of the results. -/
structure Contract (S Obj : Type) where
  Inv : S → Prop
  Valid : S → Obj → Prop
  Later : S → S → Prop
  Derives : Obj → Obj → Prop
  Answers : S → Obj → (method : ℕ) → (args result : List UInt8) → Prop
  refl : ∀ s, Later s s
  trans : ∀ {s t u}, Later s t → Later t u → Later s u
  valid : ∀ {s t object}, Later s t → Valid s object → Valid t object

namespace Contract

/-- What a method or an observer of `object` has to ensure. -/
def Post (C : Contract S Obj) (s : S) (object : Obj) (s' : S) (granted : List Obj) : Prop :=
  C.Inv s' ∧ C.Later s s' ∧ ∀ other ∈ granted, C.Valid s' other ∧ C.Derives object other

/-- The methods and observers keep a contract.  They may rely on what they are called with
(`Accepted`) and on what they observe (`Observed`). -/
structure Kept (C : Contract S Obj) (impl : ServerImpl S Obj V) (E : Panic → Prop)
    (Accepted : Obj → ℕ → List UInt8 → Prop) (Observed : Obj → V → Prop) : Prop where
  call : ∀ {s object method args} sender, C.Inv s → C.Valid s object →
    Accepted object method args → (impl.callMethod s method args object sender).Ensures E
      fun left granted => C.Post s object left.1 granted ∧ C.Answers s object method args left.2
  observe : ∀ {s object value}, C.Inv s → C.Valid s object → Observed object value →
    (impl.observe s value object).Ensures E fun s' granted => C.Post s object s' granted

end Contract

namespace Dispatch

variable {d d' : Dispatch S Obj} {handlers handlers' : List (Option Obj)} {allocated : ℕ}
  {entries : List (HandlerEntry Obj)}

/-- A handler was there before, or is one of the new ones. -/
lemma mem_installHandlers (h : installHandlers handlers allocated entries = .ok handlers')
    {object : Obj} (hmem : some object ∈ handlers') :
    some object ∈ handlers ∨ object ∈ entries.map HandlerEntry.object := by
  revert hmem
  refine Checked.foldlM_keeps (fun table : List (Option Obj) =>
    some object ∈ table → some object ∈ handlers ∨ object ∈ entries.map HandlerEntry.object)
    (s := resize handlers allocated) ?_ ?_ h
  · intro hmem
    rcases List.mem_append.mp hmem with hmem | hmem
    · exact Or.inl (List.mem_of_mem_take hmem)
    · exact absurd (List.eq_of_mem_replicate hmem) (Option.some_ne_none object)
  · intro entry hentry table table' hold hset hmem
    obtain ⟨-, rfl⟩ := Checked.ite_eq_ok.mp hset
    rcases List.mem_or_eq_of_mem_set hmem with hmem | heq
    · exact hold hmem
    · cases heq
      exact Or.inr (List.mem_map_of_mem hentry)

end Dispatch

namespace Contract

variable {C : Contract S Obj} {impl : ServerImpl S Obj V} {Accepted : Obj → ℕ → List UInt8 → Prop}
  {Observed : Obj → V → Prop} {object₀ : Obj} {exported : CapabilityCertificateValue}
  {d d' : Dispatch S Obj} {event : Dispatch.Event V} {events : List (Dispatch.Event V)} {s s' : S}

/-- What was granted to a process derives from an object that it called. -/
def Derived (C : Contract S Obj) (actions : List (Action Obj)) : Prop :=
  ∀ n index other client, actions[n]? = some (.granted index other (.userspace client)) →
    ∃ index' object, .called index' object client ∈ actions.take n ∧ C.Derives object other

/-- The contract is kept so far. -/
structure Holds (C : Contract S Obj) (object₀ : Obj) (exported : CapabilityCertificateValue)
    (d : Dispatch S Obj) : Prop where
  ready : d.Ready object₀ exported
  inv : C.Inv d.server
  handlers : ∀ object, some object ∈ d.handlers → C.Valid d.server object
  observers : ∀ object ∈ d.observers, C.Valid d.server object
  derived : C.Derived d.trace

/-- What the server relies on, for something that the loop meets. -/
def Relies (Accepted : Obj → ℕ → List UInt8 → Prop) (Observed : Obj → V → Prop)
    (d : Dispatch S Obj) : Dispatch.Event V → Prop
  | .receive cap method args _ =>
      ∀ object, d.handlers[cap.localIndex.val]? = some (some object) → Accepted object method args
  | .idle polled => ∀ i object, d.observers[i]? = some object → ∀ value ∈ polled i, Observed object value

lemma Derived.append (h : C.Derived actions) {added : List (Action Obj)}
    (hadded : ∀ action ∈ added, ∀ index other client,
      action = .granted index other (.userspace client) →
        ∃ index' object, .called index' object client ∈ actions ∧ C.Derives object other) :
    C.Derived (actions ++ added) := by
  intro n index other client hn
  by_cases hlt : n < actions.length
  · rw [List.getElem?_append_left hlt] at hn
    rw [List.take_append_of_le_length hlt.le]
    exact h n index other client hn
  · have hle := Nat.le_of_not_lt hlt
    rw [List.getElem?_append_right hle] at hn
    obtain ⟨index', object, hmem, hderives⟩ :=
      hadded _ (List.mem_of_getElem? hn) index other client rfl
    refine ⟨index', object, ?_, hderives⟩
    rw [List.take_append, List.take_of_length_le hle]
    exact List.mem_append_left _ hmem

/-- New objects are valid, and the old ones still are. -/
lemma Holds.validHandlers (h : C.Holds object₀ exported d) {handlers : List (Option Obj)} {allocated : ℕ}
    {entries : List (HandlerEntry Obj)}
    (hinstall : Dispatch.installHandlers d.handlers allocated entries = .ok handlers)
    (hlater : C.Later d.server s) (hnew : ∀ entry ∈ entries, C.Valid s entry.object) :
    ∀ object, some object ∈ handlers → C.Valid s object := by
  intro object hmem
  rcases Dispatch.mem_installHandlers hinstall hmem with hmem | hmem
  · exact C.valid hlater (h.handlers object hmem)
  · obtain ⟨entry, hentry, rfl⟩ := List.mem_map.mp hmem
    exact hnew entry hentry

/-- **A call keeps the contract.** -/
lemma Holds.runCall (hkept : C.Kept impl E Accepted Observed) (h : C.Holds object₀ exported d)
    {cap : RawCapability} {method : ℕ} {args : List UInt8} {sender : ProcessId}
    (hdeliverable : d.Deliverable (.receive cap method args sender : Dispatch.Event V))
    (hrelies : Relies Accepted Observed d (.receive cap method args sender)) :
    Meets (d.runCall impl pid cap method args sender)
      (fun e => E e ∨ e = .assertion .allocateCertificate)
      fun left => (C.Holds object₀ exported left.1 ∧ C.Later d.server left.1.server) ∧
        ∃ object, d.handlers[cap.localIndex.val]? = some (some object) ∧
          C.Answers d.server object method args left.2 := by
  obtain ⟨grantee, hpage, hkernel⟩ := hdeliverable
  obtain ⟨object, hholds⟩ := h.ready.holds hpage hkernel
  have hobject := (h.ready.handler _ _).mpr hholds
  have hensures := hkept.call sender h.inv (h.handlers object (List.mem_of_getElem? hobject))
    (hrelies object hobject)
  rw [Dispatch.runCall, hobject]
  refine ⟨(Behaviour.run_onlyFails hensures.panicsIn).bind fun left hrun => ?_, fun left hcall => ?_⟩
  · obtain ⟨⟨server, result⟩, world⟩ := left
    obtain ⟨handlers, hinstall, -⟩ := h.ready.installCall hobject hrun server
    simp only [hinstall]
    exact .pure
  · obtain ⟨⟨⟨server, result⟩, world⟩, hrun, hcall⟩ := Checked.bind_eq_ok.mp hcall
    obtain ⟨handlers, hinstall, hcall⟩ := Checked.bind_eq_ok.mp hcall
    obtain ⟨handlers', hinstall', hready⟩ := h.ready.installCall hobject hrun server
    cases hinstall.symm.trans hinstall'
    cases hcall
    obtain ⟨granted, added, ⟨⟨hinv, hlater, hgranted⟩, hanswer⟩, htrace, hnew, hadded⟩ :=
      Behaviour.run_ensures hensures hrun
    refine ⟨⟨⟨hready, hinv, h.validHandlers hinstall hlater ?_, ?_, ?_⟩, hlater⟩, object, rfl,
      hanswer⟩
    · intro entry hentry
      rw [hnew, List.nil_append] at hentry
      obtain ⟨grantee, hmem⟩ := Dispatch.mem_filterMap_entry.mp hentry
      rcases hadded _ hmem with ⟨index, other, heq, hother⟩ | ⟨index, heq⟩
      · cases heq
        exact (hgranted _ hother).1
      · cases heq
    · exact fun other hother => C.valid hlater (h.observers other hother)
    · -- the call is on record when its method grants something
      have hcalled : C.Derived (d.trace ++ [.called cap.localIndex object sender]) := by
        refine h.derived.append fun action haction index other client heq => ?_
        rw [List.mem_singleton.mp haction] at heq
        cases heq
      show C.Derived world.trace
      rw [htrace]
      refine hcalled.append fun action haction index other client heq => ?_
      rcases hadded action haction with ⟨index', other', rfl, hother⟩ | ⟨index', rfl⟩
      · cases heq
        exact ⟨_, object, List.mem_append_right _ (List.mem_singleton.mpr rfl), (hgranted _ hother).2⟩
      · cases heq

/-- What holds within one half of the loop, between two observed values. -/
structure Running (C : Contract S Obj) (exported : CapabilityCertificateValue)
    (d : Dispatch S Obj) (left : S × World Obj) : Prop where
  recorded : Recorded exported left.2.slots left.2.trace
  extends_start : World.Extends ⟨d.slots, [], d.trace⟩ left.2
  inv : C.Inv left.1
  later : C.Later d.server left.1
  derived : C.Derived left.2.trace
  new : ∀ entry ∈ left.2.newHandlers, C.Valid left.1 entry.object

/-- One observer and one value. -/
lemma Running.observe (hkept : C.Kept impl E Accepted Observed) {object : Obj} {value : V}
    {left : S × World Obj} (h : C.Running exported d left) (hvalid : C.Valid d.server object)
    (hobserved : Observed object value) :
    Meets ((impl.observe left.1 value object).run pid .kernel left.2)
      (fun e => E e ∨ e = .assertion .allocateCertificate) (C.Running exported d) := by
  obtain ⟨server, world⟩ := left
  have hensures := hkept.observe h.inv (C.valid h.later hvalid) hobserved
  refine ⟨Behaviour.run_onlyFails hensures.panicsIn, fun left' hrun => ?_⟩
  obtain ⟨server', world'⟩ := left'
  obtain ⟨hrecorded, hextends⟩ := Behaviour.run_recorded h.recorded hrun
  obtain ⟨granted, added, ⟨hinv, hlater, hgranted⟩, htrace, hnew, hadded⟩ :=
    Behaviour.run_ensures hensures hrun
  refine ⟨hrecorded, h.extends_start.trans hextends, hinv, C.trans h.later hlater, ?_, ?_⟩
  · -- what an observer grants, it grants to the kernel
    simp only [htrace]
    refine h.derived.append fun action haction index other client heq => ?_
    rcases hadded action haction with ⟨index', other', rfl, -⟩ | ⟨index', rfl⟩
    · cases heq
    · cases heq
  · intro entry hentry
    simp only [hnew] at hentry
    rcases List.mem_append.mp hentry with hentry | hentry
    · exact C.valid hlater (h.new entry hentry)
    · obtain ⟨grantee, hmem⟩ := Dispatch.mem_filterMap_entry.mp hentry
      rcases hadded _ hmem with ⟨index, other, heq, hother⟩ | ⟨index, heq⟩
      · cases heq
        exact (hgranted _ hother).1
      · cases heq

/-- **All values of all observers keep the contract.** -/
lemma Holds.runObservables (hkept : C.Kept impl E Accepted Observed) (h : C.Holds object₀ exported d)
    {polled : ℕ → List V} (hrelies : Relies Accepted Observed d (.idle polled)) :
    Meets (d.runObservables impl pid polled) (fun e => E e ∨ e = .assertion .allocateCertificate)
      fun d' => C.Holds object₀ exported d' ∧ C.Later d.server d'.server := by
  have hstart : C.Running exported d (d.server, ⟨d.slots, [], d.trace⟩) :=
    ⟨h.ready.recorded, .refl _, h.inv, C.refl _, h.derived, fun _ hmem => absurd hmem List.not_mem_nil⟩
  rw [Dispatch.runObservables]
  refine Meets.bind (P := C.Running exported d) (Meets.foldlM ?_ hstart) ?_
  · rintro ⟨object, i⟩ hmem ⟨server, world⟩ hrunning
    have hobject : d.observers[i]? = some object := List.mk_mem_zipIdx_iff_getElem?.mp hmem
    refine Meets.foldlM (fun value hvalue left hleft => ?_) hrunning
    exact hleft.observe hkept (h.observers object (List.mem_of_getElem? hobject))
      (hrelies i object hobject value hvalue)
  · rintro ⟨server, world⟩ hrunning
    obtain ⟨handlers, hinstall, hready⟩ := h.ready.install h.ready.recorded h.ready.justified
      (fun _ _ => Iff.rfl) hrunning.recorded hrunning.extends_start server
    simp only [hinstall, Checked.ok_bind]
    refine .pure ⟨⟨hready, hrunning.inv, h.validHandlers hinstall hrunning.later hrunning.new, ?_,
      hrunning.derived⟩, hrunning.later⟩
    exact fun other hother => C.valid hrunning.later (h.observers other hother)

/-! ## Runs -/

/-- **A turn of the loop keeps the contract.** -/
lemma Holds.turn (hkept : C.Kept impl E Accepted Observed) (h : C.Holds object₀ exported d)
    (hdeliverable : d.Deliverable event) (hrelies : Relies Accepted Observed d event) :
    Meets (d.turn impl pid event) (fun e => E e ∨ e = .assertion .allocateCertificate)
      fun d' => C.Holds object₀ exported d' ∧ C.Later d.server d'.server := by
  cases event with
  | receive cap method args sender =>
      exact (h.runCall hkept hdeliverable hrelies).bind fun left hleft => .pure hleft.1
  | idle polled => exact h.runObservables hkept hrelies

/-- Every message of a run is one that the kernel can deliver, and everything is as the server relies
on. -/
def Admissible (impl : ServerImpl S Obj V) (pid : ProcessId) (Accepted : Obj → ℕ → List UInt8 → Prop)
    (Observed : Obj → V → Prop) (d : Dispatch S Obj) : List (Dispatch.Event V) → Prop
  | [] => True
  | event :: events => d.Deliverable event ∧ Relies Accepted Observed d event ∧
      ∀ d', d.turn impl pid event = .ok d' → Admissible impl pid Accepted Observed d' events

/-- **A contract is kept in all runs.** -/
lemma Holds.run (hkept : C.Kept impl E Accepted Observed) (h : C.Holds object₀ exported d)
    (hevents : Admissible impl pid Accepted Observed d events) :
    Meets (d.run impl pid events) (fun e => E e ∨ e = .assertion .allocateCertificate)
      fun d' => C.Holds object₀ exported d' ∧ C.Later d.server d'.server := by
  induction events generalizing d with
  | nil => exact .pure ⟨h, C.refl _⟩
  | cons event events ih =>
      obtain ⟨hdeliverable, hrelies, hrest⟩ := hevents
      obtain ⟨hfails, hkeeps⟩ : Meets (d.turn impl pid event) _ _ := h.turn hkept hdeliverable hrelies
      rw [Dispatch.run, List.foldlM_cons]
      refine ⟨hfails.bind fun t ht => (ih (hkeeps t ht).1 (hrest t ht)).1, fun d' hrun => ?_⟩
      obtain ⟨t, ht, hrun⟩ := Checked.bind_eq_ok.mp hrun
      obtain ⟨hholds, hlater⟩ := hkeeps t ht
      obtain ⟨hholds', hlater'⟩ := (ih hholds (hrest t ht)).2 d' hrun
      exact ⟨hholds', C.trans hlater hlater'⟩

/-- A server begins with one object, which it exports. -/
lemma Holds.new {observers : List Obj} (hinv : C.Inv s) (hobject : C.Valid s object₀)
    (hobservers : ∀ object ∈ observers, C.Valid s object) :
    C.Holds object₀ exported (Dispatch.new s object₀ observers exported) where
  ready := Dispatch.ready_new
  inv := hinv
  handlers := by
    intro object hmem
    cases List.mem_singleton.mp hmem
    exact hobject
  observers := hobservers
  derived := fun n index other client hn => by cases hn

end Contract

/-! ## Records -/

/-- Each turn of a loop adds something. -/
lemma Checked.foldlM_adds {σ : Type} {step : σ → α → Checked σ} (seen : σ → List V) (added : α → List V)
    {l : List α} {s s' : σ} (hstep : ∀ s a s', step s a = .ok s' → seen s' = seen s ++ added a)
    (hloop : l.foldlM step s = .ok s') : seen s' = seen s ++ l.flatMap added := by
  induction l generalizing s with
  | nil =>
      cases hloop
      simp
  | cons a l ih =>
      rw [List.foldlM_cons] at hloop
      obtain ⟨t, ht, hloop⟩ := Checked.bind_eq_ok.mp hloop
      rw [ih hloop, hstep s a t ht, List.flatMap_cons, List.append_assoc]

namespace Dispatch

variable {W : Type} {impl : ServerImpl S Obj V} {calls : ℕ → List UInt8 → List W}
  {polls : Obj → V → List W} {seen : S → List W} {d d' : Dispatch S Obj} {event : Event V}
  {events : List (Event V)}

/-- The server keeps a record: `calls` of what it is called with, and `polls` of what it observes. -/
structure Records (impl : ServerImpl S Obj V) (calls : ℕ → List UInt8 → List W)
    (polls : Obj → V → List W) (seen : S → List W) : Prop where
  call : ∀ s method args object sender, (impl.callMethod s method args object sender).Ensures
    (fun _ => True) fun left _ => seen left.1 = seen s ++ calls method args
  observe : ∀ s value object, (impl.observe s value object).Ensures
    (fun _ => True) fun s' _ => seen s' = seen s ++ polls object value

/-- What is recorded in a turn. -/
def recordOf (calls : ℕ → List UInt8 → List W) (polls : Obj → V → List W) (observers : List Obj) :
    Event V → List W
  | .receive _ method args _ => calls method args
  | .idle polled => observers.zipIdx.flatMap fun (object, i) => (polled i).flatMap (polls object)

/-- A message that is answered: its method has returned. -/
lemma turn_receive {cap : RawCapability} {method : ℕ} {args : List UInt8} {sender : ProcessId}
    (hturn : d.turn impl pid (.receive cap method args sender) = .ok d') :
    ∃ object world result world', (impl.callMethod d.server method args object sender).run pid
      (.userspace sender) world = .ok ((d'.server, result), world') ∧ d'.observers = d.observers := by
  obtain ⟨⟨d', result⟩, hcall, hturn⟩ := Checked.bind_eq_ok.mp hturn
  cases hturn
  rw [runCall] at hcall
  split at hcall
  · cases hcall
  · cases hcall
  · next object _ =>
      obtain ⟨⟨⟨server, result⟩, world⟩, hrun, hcall⟩ := Checked.bind_eq_ok.mp hcall
      obtain ⟨handlers, -, hcall⟩ := Checked.bind_eq_ok.mp hcall
      cases hcall
      exact ⟨object, _, _, _, hrun, rfl⟩

/-- No message: all values of all observers have been observed. -/
lemma turn_idle {polled : ℕ → List V} (hturn : d.turn impl pid (.idle polled) = .ok d') :
    ∃ world, d.observers.zipIdx.foldlM
      (fun (server, world) (object, i) => observeAll impl pid server world object (polled i))
      (d.server, ⟨d.slots, [], d.trace⟩) = .ok (d'.server, world) ∧ d'.observers = d.observers := by
  obtain ⟨⟨server, world⟩, hloop, hturn⟩ := Checked.bind_eq_ok.mp hturn
  obtain ⟨handlers, -, hturn⟩ := Checked.bind_eq_ok.mp hturn
  cases hturn
  exact ⟨world, hloop, rfl⟩

lemma Records.turn (h : Records impl calls polls seen) (hturn : d.turn impl pid event = .ok d') :
    seen d'.server = seen d.server ++ recordOf calls polls d.observers event ∧
      d'.observers = d.observers := by
  cases event with
  | receive cap method args sender =>
      obtain ⟨object, world, result, world', hrun, hobservers⟩ := turn_receive hturn
      obtain ⟨_, _, hseen, -⟩ := Behaviour.run_ensures (h.call _ _ _ _ _) hrun
      exact ⟨hseen, hobservers⟩
  | idle polled =>
      obtain ⟨world, hloop, hobservers⟩ := turn_idle hturn
      refine ⟨?_, hobservers⟩
      refine Checked.foldlM_adds (fun left : S × World Obj => seen left.1)
        (fun (object, i) => (polled i).flatMap (polls object)) ?_ hloop
      rintro left ⟨object, i⟩ left' hall
      refine Checked.foldlM_adds (fun left : S × World Obj => seen left.1) (polls object) ?_ hall
      intro left value left' hobserve
      obtain ⟨_, _, hseen, -⟩ := Behaviour.run_ensures (h.observe _ _ _) hobserve
      exact hseen

/-- **Nothing is lost or recorded twice**, and it is recorded in order. -/
lemma Records.run (h : Records impl calls polls seen) (hrun : d.run impl pid events = .ok d') :
    seen d'.server = seen d.server ++ events.flatMap (recordOf calls polls d.observers) ∧
      d'.observers = d.observers := by
  induction events generalizing d with
  | nil =>
      cases hrun
      simp
  | cons event events ih =>
      rw [Dispatch.run, List.foldlM_cons] at hrun
      obtain ⟨t, hturn, hrun⟩ := Checked.bind_eq_ok.mp hrun
      obtain ⟨hseen, hobservers⟩ := h.turn hturn
      obtain ⟨hseen', hobservers'⟩ := ih hrun
      refine ⟨?_, hobservers'.trans hobservers⟩
      rw [hseen', hseen, hobservers, List.flatMap_cons, List.append_assoc]

/-! ## What every return leaves behind -/

/-- What each method and each observer does to the state when it returns, whatever it was given. -/
structure Moves (impl : ServerImpl S Obj V) (Next : S → S → Prop) : Prop where
  refl : ∀ s, Next s s
  trans : ∀ {s t u}, Next s t → Next t u → Next s u
  call : ∀ s method args object sender, (impl.callMethod s method args object sender).Ensures
    (fun _ => True) fun left _ => Next s left.1
  observe : ∀ s value object, (impl.observe s value object).Ensures (fun _ => True) fun s' _ => Next s s'

variable {Next : S → S → Prop}

lemma Moves.turn (h : Moves impl Next) (hturn : d.turn impl pid event = .ok d') :
    Next d.server d'.server := by
  cases event with
  | receive cap method args sender =>
      obtain ⟨object, world, result, world', hrun, -⟩ := turn_receive hturn
      obtain ⟨_, _, hnext, -⟩ := Behaviour.run_ensures (h.call _ _ _ _ _) hrun
      exact hnext
  | idle polled =>
      obtain ⟨world, hloop, -⟩ := turn_idle hturn
      refine Checked.foldlM_keeps (fun left : S × World Obj => Next d.server left.1) (h.refl _) ?_ hloop
      rintro ⟨object, i⟩ - left left' hleft hall
      refine Checked.foldlM_keeps (fun left : S × World Obj => Next d.server left.1) hleft ?_ hall
      intro value _ left left' hleft hobserve
      obtain ⟨_, _, hnext, -⟩ := Behaviour.run_ensures (h.observe _ _ _) hobserve
      exact h.trans hleft hnext

/-- **So does every run** that has not panicked, with any messages and any values. -/
lemma Moves.run (h : Moves impl Next) (hrun : d.run impl pid events = .ok d') :
    Next d.server d'.server :=
  Checked.foldlM_keeps (fun t : Dispatch S Obj => Next d.server t.server) (h.refl _)
    (fun _ _ _ _ hnext hturn => h.trans hnext (h.turn hturn)) hrun

end Dispatch

end Deravel
