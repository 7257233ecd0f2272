import DeravelOs.Server.Dispatch

/-!
# What a capability of a server gives

Certificates are written one after the other and never again, so the index of a capability belongs to
one object for good.  Between two turns of the loop, `handlers` has exactly the objects that were
granted, each at its index.

* `Recorded`: the certificates are the ones that were granted and forwarded so far.
* `Dispatch.Ready`: what holds between two turns.
* `Dispatch.run_authority`: a call reaches the object that its capability was granted for.
* `Dispatch.run_serves`: and it does reach it, as long as there are slots left.
-/

namespace Deravel

open Failure

variable {Obj α S V : Type} {pid : ProcessId} {exported value : CapabilityCertificateValue}
  {slots slots' : Slots} {actions : List (Action Obj)} {cap : RawCapability} {world world' : World Obj}

/-! ## Certificates -/

namespace Action

/-- The index that is used up. -/
def slot : Action Obj → Option ℕ
  | granted index _ _ => some index
  | forwarded index => some index
  | called _ _ _ => none

/-- The handler for what is granted. -/
def entry : Action Obj → Option (HandlerEntry Obj)
  | granted index object _ => some ⟨index, object⟩
  | _ => none

/-- The certificate that belongs to an action. -/
def Certifies : Action Obj → CapabilityCertificateValue → Prop
  | granted _ _ grantee, value => value = .granted grantee
  | forwarded _, value => ∃ forwardee cap, value = .forwarded forwardee cap
  | called _ _ _, _ => True

end Action

/-- The certificates are what was granted and forwarded: the indices were used up one after the other,
and the slots that are left are as they were. -/
structure Recorded (exported : CapabilityCertificateValue) (slots : Slots)
    (actions : List (Action Obj)) : Prop where
  one_le : 1 ≤ slots.allocated
  le : slots.allocated ≤ capabilitiesPerPage
  indices : actions.filterMap Action.slot = List.range' 1 (slots.allocated - 1)
  exported : slots.page 0 = exported
  certified : ∀ action ∈ actions, ∀ index ∈ action.slot, ∀ h : index < capabilitiesPerPage,
    action.Certifies (slots.page ⟨index, h⟩)
  free : ∀ i : Fin capabilitiesPerPage, slots.allocated ≤ i → slots.page i = ⟨0, 0⟩

namespace Recorded

lemma index_mem (h : Recorded exported slots actions) {action : Action Obj} (haction : action ∈ actions)
    {index : ℕ} (hindex : action.slot = some index) : 1 ≤ index ∧ index < slots.allocated := by
  have hmem : index ∈ actions.filterMap Action.slot :=
    List.mem_filterMap.mpr ⟨action, haction, hindex⟩
  rw [h.indices, List.mem_range'_1] at hmem
  have := h.one_le
  omega

/-- A slot that was used up belongs to one action. -/
lemma unique (h : Recorded exported slots actions) {a b : Action Obj} (ha : a ∈ actions) (hb : b ∈ actions)
    {index : ℕ} (hindex : a.slot = some index) (hindex' : b.slot = some index) : a = b := by
  have hnodup : (actions.filterMap Action.slot).Nodup := by
    rw [h.indices]
    exact List.nodup_range'
  clear h
  induction actions with
  | nil => exact absurd ha List.not_mem_nil
  | cons c actions ih =>
      have hrest : ∀ d ∈ actions, d.slot = some index → index ∈ actions.filterMap Action.slot :=
        fun d hd hslot => List.mem_filterMap.mpr ⟨d, hd, hslot⟩
      rcases List.mem_cons.mp ha with rfl | hatail <;> rcases List.mem_cons.mp hb with rfl | hbtail
      · rfl
      · rw [List.filterMap_cons_some hindex] at hnodup
        exact absurd (hrest b hbtail hindex') (List.nodup_cons.mp hnodup).1
      · rw [List.filterMap_cons_some hindex'] at hnodup
        exact absurd (hrest a hatail hindex) (List.nodup_cons.mp hnodup).1
      · refine ih hatail hbtail ?_
        cases hc : c.slot with
        | none => rwa [List.filterMap_cons_none hc] at hnodup
        | some i =>
            rw [List.filterMap_cons_some hc] at hnodup
            exact (List.nodup_cons.mp hnodup).2

/-- A call uses no slot up. -/
lemma called (h : Recorded exported slots actions) (index : ℕ) (object : Obj) (sender : ProcessId) :
    Recorded exported slots (actions ++ [.called index object sender]) where
  one_le := h.one_le
  le := h.le
  indices := by
    rw [List.filterMap_append, h.indices]
    exact List.append_nil _
  exported := h.exported
  certified := by
    intro action haction i hi
    rcases List.mem_append.mp haction with haction | haction
    · exact h.certified action haction i hi
    · rw [List.mem_singleton.mp haction] at hi
      cases hi
  free := h.free

/-- **The next slot is written** and belongs to the action from then on. -/
lemma allocate (h : Recorded exported slots actions) (action : Action Obj)
    (haction : action.slot = some cap.localIndex.val) (hvalue : action.Certifies value)
    (hallocate : allocateCertificate pid slots value = .ok (cap, slots')) :
    cap.localIndex.val = slots.allocated ∧ slots'.allocated = slots.allocated + 1 ∧
      Recorded exported slots' (actions ++ [action]) := by
  rw [allocateCertificate] at hallocate
  split at hallocate
  case isFalse => cases hallocate
  case isTrue hlt =>
    cases hallocate
    rw [RawCapability.localIndex_slot] at haction ⊢
    have hone := h.one_le
    refine ⟨rfl, rfl, ⟨Nat.le_succ_of_le hone, hlt, ?_, ?_, ?_, ?_⟩⟩
    · have hsucc : slots.allocated + 1 - 1 = slots.allocated - 1 + 1 := by omega
      have hlast : 1 + 1 * (slots.allocated - 1) = slots.allocated := by omega
      rw [List.filterMap_append, h.indices, hsucc, List.range'_concat, hlast,
        List.filterMap_cons_some haction]
      rfl
    · refine (Function.update_of_ne (fun heq => ?_) _ _).trans h.exported
      have : (0 : Fin capabilitiesPerPage).val = slots.allocated := congrArg Fin.val heq
      simp only [Fin.val_zero] at this
      omega
    · intro other hother i hi hbound
      rcases List.mem_append.mp hother with hother | hother
      · have hne : (⟨i, hbound⟩ : Fin capabilitiesPerPage) ≠ ⟨slots.allocated, hlt⟩ := fun heq =>
          (h.index_mem hother hi).2.ne (congrArg Fin.val heq)
        simp only [Function.update_of_ne hne]
        exact h.certified other hother i hi hbound
      · obtain rfl := List.mem_singleton.mp hother
        obtain rfl := Option.some.inj (haction.symm.trans hi)
        simpa only [Function.update_self] using hvalue
    · intro i hi
      refine (Function.update_of_ne (fun heq => ?_) _ _).trans (h.free i (Nat.le_of_succ_le hi))
      have : i.val = slots.allocated := congrArg Fin.val heq
      exact absurd hi (by simp [this])

end Recorded

/-! ## Methods and observers -/

/-- What was granted and forwarded between two points, and nothing was called. -/
def World.Extends (world world' : World Obj) : Prop :=
  ∃ added : List (Action Obj), world'.trace = world.trace ++ added ∧
    world'.newHandlers = world.newHandlers ++ added.filterMap Action.entry ∧
    ∀ action ∈ added, action.slot ≠ none

lemma World.Extends.refl (world : World Obj) : world.Extends world :=
  ⟨[], (List.append_nil _).symm, (List.append_nil _).symm, fun _ h => absurd h List.not_mem_nil⟩

lemma World.Extends.trans {world'' : World Obj} (h : world.Extends world')
    (h' : world'.Extends world'') : world.Extends world'' := by
  obtain ⟨added, htrace, hnew, hslots⟩ := h
  obtain ⟨added', htrace', hnew', hslots'⟩ := h'
  refine ⟨added ++ added', ?_, ?_, fun action haction => ?_⟩
  · rw [htrace', htrace, List.append_assoc]
  · rw [hnew', hnew, List.append_assoc, List.filterMap_append]
  · exact (List.mem_append.mp haction).elim (hslots action) (hslots' action)

namespace Behaviour

variable {grantee : Actor} {b : Behaviour Obj α} {a : α} {E : Panic → Prop}

/-- A behaviour writes slots that are free, and keeps the record of them. -/
lemma run_recorded (hworld : Recorded exported world.slots world.trace)
    (h : b.run pid grantee world = .ok (a, world')) :
    Recorded exported world'.slots world'.trace ∧ world.Extends world' := by
  induction b generalizing world with
  | done a' =>
      cases h
      exact ⟨hworld, .refl _⟩
  | panic e => cases h
  | grant object next ih =>
      rw [run] at h
      obtain ⟨⟨cap, slots⟩, hgrant, h⟩ := Checked.bind_eq_ok.mp h
      obtain ⟨-, -, hrecorded⟩ := hworld.allocate
        (.granted cap.localIndex object grantee) rfl rfl hgrant
      obtain ⟨hrecorded', hextends⟩ := ih cap hrecorded h
      refine ⟨hrecorded', World.Extends.trans ?_ hextends⟩
      refine ⟨[.granted cap.localIndex object grantee], rfl, rfl, fun action haction => ?_⟩
      rw [List.mem_singleton.mp haction]
      exact Option.some_ne_none _
  | forward inner forwardee next ih =>
      rw [run] at h
      obtain ⟨⟨cap, slots⟩, hforward, h⟩ := Checked.bind_eq_ok.mp h
      obtain ⟨-, -, hrecorded⟩ := hworld.allocate
        (.forwarded cap.localIndex) rfl ⟨forwardee, inner, rfl⟩ hforward
      obtain ⟨hrecorded', hextends⟩ := ih cap hrecorded h
      refine ⟨hrecorded', World.Extends.trans ?_ hextends⟩
      refine ⟨[.forwarded cap.localIndex], rfl, (List.append_nil _).symm, fun action haction => ?_⟩
      rw [List.mem_singleton.mp haction]
      exact Option.some_ne_none _

/-- The panics that a behaviour has of its own. -/
def PanicsIn (E : Panic → Prop) : Behaviour Obj α → Prop
  | done _ => True
  | panic e => E e
  | grant _ next => ∀ cap, (next cap).PanicsIn E
  | forward _ _ next => ∀ cap, (next cap).PanicsIn E

/-- Otherwise it fails when the slots are used up. -/
lemma run_onlyFails (h : b.PanicsIn E) :
    OnlyFails (b.run pid grantee world) fun e => E e ∨ e = .assertion .allocateCertificate := by
  have hallocate : ∀ {slots value}, OnlyFails (allocateCertificate pid slots value)
      fun e => E e ∨ e = .assertion .allocateCertificate := by
    intro slots value
    rw [allocateCertificate]
    split
    · exact .pure
    · exact .throw (Or.inr rfl)
  induction b generalizing world with
  | done a' => exact .ok
  | panic e => exact .throw (Or.inl h)
  | grant object next ih => exact hallocate.bind fun left _ => ih left.1 (h left.1)
  | forward inner forwardee next ih => exact hallocate.bind fun left _ => ih left.1 (h left.1)

end Behaviour

/-! ## Handlers -/

namespace Dispatch

variable {handlers handlers' : List (Option Obj)} {allocated : ℕ} {entries : List (HandlerEntry Obj)}

lemma length_resize (hle : handlers.length ≤ allocated) :
    (resize handlers allocated).length = allocated := by
  rw [resize, List.take_of_length_le hle, List.length_append, List.length_replicate]
  omega

lemma getElem?_resize (hle : handlers.length ≤ allocated) {i : ℕ} {object : Obj} :
    (resize handlers allocated)[i]? = some (some object) ↔ handlers[i]? = some (some object) := by
  rw [resize, List.take_of_length_le hle]
  by_cases hi : i < handlers.length
  · rw [List.getElem?_append_left hi]
  · rw [List.getElem?_append_right (Nat.le_of_not_lt hi), List.getElem?_replicate,
      List.getElem?_eq_none (Nat.le_of_not_lt hi)]
    split <;> simp

/-- One handler after the other is put into a table. -/
lemma foldlM_set {table : List (Option Obj)}
    (hlt : ∀ entry ∈ entries, entry.localIndex < table.length)
    (hfree : ∀ entry ∈ entries, ∀ object, table[entry.localIndex]? ≠ some (some object))
    (hnodup : (entries.map HandlerEntry.localIndex).Nodup) :
    ∃ table' : List (Option Obj), entries.foldlM (fun (handlers : List (Option Obj)) entry =>
        if entry.localIndex < handlers.length then
          pure (handlers.set entry.localIndex (some entry.object))
        else throw (.indexOutOfBounds .runCall)) table = (.ok table' : Checked _) ∧
      table'.length = table.length ∧ ∀ i object, table'[i]? = some (some object) ↔
        table[i]? = some (some object) ∨ ⟨i, object⟩ ∈ entries := by
  induction entries generalizing table with
  | nil => exact ⟨table, rfl, rfl, fun i object => by simp⟩
  | cons entry entries ih =>
      obtain ⟨hlt_entry, hlt_new⟩ := List.forall_mem_cons.mp hlt
      obtain ⟨hfree_entry, hfree_new⟩ := List.forall_mem_cons.mp hfree
      obtain ⟨hnot, hnodup⟩ := List.nodup_cons.mp hnodup
      have hne : ∀ other ∈ entries, entry.localIndex ≠ other.localIndex := fun other hother heq =>
        hnot (heq ▸ List.mem_map_of_mem hother)
      obtain ⟨table', htable', hlength, hget⟩ := @ih (table.set entry.localIndex (some entry.object))
        (fun other hother => by rw [List.length_set]; exact hlt_new other hother)
        (fun other hother object => by
          rw [List.getElem?_set_ne (hne other hother)]
          exact hfree_new other hother object) hnodup
      refine ⟨table', ?_, hlength.trans List.length_set, fun i object => ?_⟩
      · rw [List.foldlM_cons, if_pos hlt_entry]
        exact htable'
      · rw [hget, List.getElem?_set, List.mem_cons]
        by_cases hi : entry.localIndex = i
        · subst hi
          simp only [if_true, if_pos hlt_entry, Option.some.injEq]
          have hold : ¬ table[entry.localIndex]? = some (some object) := hfree_entry object
          have hentry : (⟨entry.localIndex, object⟩ : HandlerEntry Obj) = entry ↔
              entry.object = object := by
            constructor
            · intro h
              rw [← h]
            · intro h
              rw [← h]
          rw [hentry]
          tauto
        · have hentry : (⟨i, object⟩ : HandlerEntry Obj) ≠ entry := fun h => hi (by rw [← h])
          rw [if_neg hi]
          tauto

/-- **New handlers are put beside the old ones**, if their indices are different and free. -/
lemma installHandlers_eq (hle : handlers.length ≤ allocated)
    (hlt : ∀ entry ∈ entries, entry.localIndex < allocated)
    (hfree : ∀ entry ∈ entries, handlers.length ≤ entry.localIndex)
    (hnodup : (entries.map HandlerEntry.localIndex).Nodup) :
    ∃ handlers', installHandlers handlers allocated entries = .ok handlers' ∧
      handlers'.length = allocated ∧ ∀ i object, handlers'[i]? = some (some object) ↔
        handlers[i]? = some (some object) ∨ ⟨i, object⟩ ∈ entries := by
  have hlength := length_resize hle
  have hfree' : ∀ entry ∈ entries, ∀ object,
      (resize handlers allocated)[entry.localIndex]? ≠ some (some object) := by
    intro entry hentry object hsome
    rw [getElem?_resize hle, List.getElem?_eq_none (hfree entry hentry)] at hsome
    cases hsome
  obtain ⟨handlers', hinstall, hlength', hget⟩ :=
    foldlM_set (fun entry hentry => hlength.symm ▸ hlt entry hentry) hfree' hnodup
  refine ⟨handlers', hinstall, hlength'.trans hlength, fun i object => ?_⟩
  rw [hget, getElem?_resize hle]

/-! ## The invariant -/

/-- What an index was granted for: the first one is that of the export. -/
def Holds (object₀ : Obj) (actions : List (Action Obj)) (index : ℕ) (object : Obj) : Prop :=
  (index = 0 ∧ object = object₀) ∨ ∃ grantee, Action.granted index object grantee ∈ actions

lemma Holds.append {object₀ object : Obj} {index : ℕ} (h : Holds object₀ actions index object)
    (added : List (Action Obj)) : Holds object₀ (actions ++ added) index object :=
  h.imp_right fun ⟨grantee, hmem⟩ => ⟨grantee, List.mem_append_left _ hmem⟩

/-- Each call was a call of what its index had been granted for. -/
def Justified (object₀ : Obj) (actions : List (Action Obj)) : Prop :=
  ∀ n index object sender, actions[n]? = some (.called index object sender) →
    Holds object₀ (actions.take n) index object

lemma Justified.append {object₀ : Obj} {added : List (Action Obj)} (h : Justified object₀ actions)
    (hadded : ∀ action ∈ added, action.slot ≠ none) : Justified object₀ (actions ++ added) := by
  intro n index object sender hn
  by_cases hlt : n < actions.length
  · rw [List.getElem?_append_left hlt] at hn
    rw [List.take_append_of_le_length hlt.le]
    exact h n index object sender hn
  · rw [List.getElem?_append_right (Nat.le_of_not_lt hlt)] at hn
    exact absurd rfl (hadded _ (List.mem_of_getElem? hn))

lemma Justified.call {object₀ object : Obj} {index : ℕ} (h : Justified object₀ actions)
    (hholds : Holds object₀ actions index object) (sender : ProcessId) :
    Justified object₀ (actions ++ [.called index object sender]) := by
  intro n index' object' sender' hn
  by_cases hlt : n < actions.length
  · rw [List.getElem?_append_left hlt] at hn
    rw [List.take_append_of_le_length hlt.le]
    exact h n index' object' sender' hn
  · rw [List.getElem?_append_right (Nat.le_of_not_lt hlt)] at hn
    have hzero : n - actions.length = 0 := by
      have := (List.getElem?_eq_some_iff.mp hn).1
      rw [List.length_singleton] at this
      omega
    rw [hzero] at hn
    cases hn
    have hn : n = actions.length := by omega
    rw [hn, List.take_left]
    exact hholds

/-- What holds between two turns of the loop. -/
structure Ready (object₀ : Obj) (exported : CapabilityCertificateValue) (d : Dispatch S Obj) :
    Prop where
  recorded : Recorded exported d.slots d.trace
  length_le : d.handlers.length ≤ d.slots.allocated
  handler : ∀ index object,
    d.handlers[index]? = some (some object) ↔ Holds object₀ d.trace index object
  justified : Justified object₀ d.trace

variable {object₀ : Obj} {d d' : Dispatch S Obj} {impl : ServerImpl S Obj V}

lemma recorded_new :
    Recorded exported ⟨1, Function.update (fun _ => ⟨0, 0⟩) 0 exported⟩ ([] : List (Action Obj)) where
  one_le := le_rfl
  le := (by decide : 1 ≤ capabilitiesPerPage)
  indices := rfl
  exported := by simp only [Function.update_self]
  certified := fun action haction => absurd haction List.not_mem_nil
  free := by
    intro i hi
    have hne : i ≠ 0 := by
      rintro rfl
      exact absurd hi (by decide : ¬ 1 ≤ (0 : Fin capabilitiesPerPage).val)
    simp only [Function.update_of_ne hne]

lemma ready_new {server : S} {observers : List Obj} :
    (Dispatch.new server object₀ observers exported).Ready object₀ exported where
  recorded := recorded_new
  length_le := le_rfl
  handler := by
    intro index object
    cases index with
    | zero => simp [Dispatch.new, Holds, eq_comm]
    | succ index => simp [Dispatch.new, Holds]
  justified := fun n index object sender hn => by cases hn

lemma mem_filterMap_entry {added : List (Action Obj)} {index : ℕ} {object : Obj} :
    ⟨index, object⟩ ∈ added.filterMap Action.entry ↔
      ∃ grantee, Action.granted index object grantee ∈ added := by
  rw [List.mem_filterMap]
  constructor
  · rintro ⟨action, hmem, hentry⟩
    cases action with
    | granted index' object' grantee =>
        cases hentry
        exact ⟨grantee, hmem⟩
    | forwarded index' => cases hentry
    | called index' object' sender => cases hentry
  · rintro ⟨grantee, hmem⟩
    exact ⟨_, hmem, rfl⟩

/-- What is granted is among what uses up slots. -/
lemma entries_sublist (added : List (Action Obj)) :
    ((added.filterMap Action.entry).map HandlerEntry.localIndex).Sublist
      (added.filterMap Action.slot) := by
  induction added with
  | nil => exact .slnil
  | cons action added ih =>
      cases action with
      | granted index object grantee => exact ih.cons_cons index
      | forwarded index => exact ih.cons index
      | called index object sender => exact ih

/-- **A half of the loop ends well:** what was granted is put into `handlers`. -/
lemma Ready.install (h : d.Ready object₀ exported) {start : List (Action Obj)}
    (hstart : Recorded exported d.slots start) (hjustified : Justified object₀ start)
    (hholds : ∀ index object, Holds object₀ start index object ↔ Holds object₀ d.trace index object)
    (hworld : Recorded exported world.slots world.trace)
    (hextends : World.Extends ⟨d.slots, [], start⟩ world) (server : S) :
    ∃ handlers', installHandlers d.handlers world.slots.allocated world.newHandlers = .ok handlers' ∧
      ({ d with
        server := server
        handlers := handlers'
        slots := world.slots
        trace := world.trace } : Dispatch S Obj).Ready object₀ exported := by
  obtain ⟨added, htrace, hnew, hslots⟩ := hextends
  simp only [List.nil_append] at htrace hnew
  have hindices := hworld.indices
  rw [htrace, List.filterMap_append] at hindices
  have hnodup := List.nodup_append'.mp (hindices ▸ List.nodup_range')
  have hentry : ∀ entry ∈ world.newHandlers, entry.localIndex ∈ added.filterMap Action.slot := by
    intro entry hentry
    refine (entries_sublist added).subset (List.mem_map_of_mem ?_)
    exact hnew ▸ hentry
  have hlt : ∀ entry ∈ world.newHandlers, entry.localIndex < world.slots.allocated := by
    intro entry hmem
    obtain ⟨action, haction, hslot⟩ := List.mem_filterMap.mp (hentry entry hmem)
    exact (hworld.index_mem (htrace ▸ List.mem_append_right _ haction) hslot).2
  -- the indices that were used up before are different
  have hge : ∀ entry ∈ world.newHandlers, d.slots.allocated ≤ entry.localIndex := by
    intro entry hmem
    by_contra hold
    obtain ⟨action, haction, hslot⟩ := List.mem_filterMap.mp (hentry entry hmem)
    have hpos := (hworld.index_mem (htrace ▸ List.mem_append_right _ haction) hslot).1
    have hstarted : entry.localIndex ∈ start.filterMap Action.slot := by
      rw [hstart.indices, List.mem_range'_1]
      omega
    exact hnodup.2.2 hstarted (hentry entry hmem)
  have hle : d.handlers.length ≤ world.slots.allocated := by
    refine h.length_le.trans ?_
    have hlength := congrArg List.length hindices
    rw [List.length_append, hstart.indices, List.length_range', List.length_range'] at hlength
    have hone := hworld.one_le
    omega
  obtain ⟨handlers', hinstall, hlength, hget⟩ := installHandlers_eq hle hlt
    (fun entry hmem => h.length_le.trans (hge entry hmem))
    (hnew ▸ (entries_sublist added).nodup hnodup.2.1)
  refine ⟨handlers', hinstall, hworld, hlength.le, fun index object => ?_, ?_⟩
  · rw [hget, h.handler, ← hholds, hnew, mem_filterMap_entry, htrace]
    simp only [Holds, List.mem_append, exists_or]
    tauto
  · simp only [htrace]
    exact hjustified.append hslots

/-! ## Turns -/

variable {sender : ProcessId} {method : ℕ} {args result : List UInt8} {event : Event V}
  {events : List (Event V)}

/-- A half of the loop that begins with a call. -/
lemma Ready.installCall (h : d.Ready object₀ exported) {object : Obj}
    (hobject : d.handlers[cap.localIndex.val]? = some (some object))
    {grantee : Actor} {b : Behaviour Obj α} {a : α}
    (hrun : b.run pid grantee ⟨d.slots, [], d.trace ++ [.called cap.localIndex object sender]⟩ =
      .ok (a, world)) (server : S) :
    ∃ handlers', installHandlers d.handlers world.slots.allocated world.newHandlers = .ok handlers' ∧
      ({ d with
        server := server
        handlers := handlers'
        slots := world.slots
        trace := world.trace } : Dispatch S Obj).Ready object₀ exported := by
  have hstart := h.recorded.called cap.localIndex object sender
  obtain ⟨hworld, hextends⟩ := Behaviour.run_recorded hstart hrun
  have hholds : ∀ index other, Holds object₀ (d.trace ++ [.called cap.localIndex object sender])
      index other ↔ Holds object₀ d.trace index other := by
    intro index other
    simp [Holds]
  exact h.install hstart (h.justified.call ((h.handler _ _).mp hobject) sender) hholds hworld hextends
    server

lemma Ready.runCall (h : d.Ready object₀ exported)
    (hcall : d.runCall impl pid cap method args sender = .ok (d', result)) :
    d'.Ready object₀ exported := by
  rw [Dispatch.runCall] at hcall
  split at hcall
  · cases hcall
  · cases hcall
  next object hobject =>
    obtain ⟨⟨⟨server, result⟩, world⟩, hrun, hcall⟩ := Checked.bind_eq_ok.mp hcall
    obtain ⟨handlers, hinstall, hcall⟩ := Checked.bind_eq_ok.mp hcall
    cases hcall
    obtain ⟨handlers', hinstall', hready⟩ := h.installCall hobject hrun server
    cases hinstall.symm.trans hinstall'
    exact hready

lemma observeAll_recorded {server server' : S} {object : Obj} {values : List V}
    (hworld : Recorded exported world.slots world.trace)
    (h : observeAll impl pid server world object values = .ok (server', world')) :
    Recorded exported world'.slots world'.trace ∧ world.Extends world' := by
  refine @Checked.foldlM_keeps _ _ (fun left : S × World Obj =>
    Recorded exported left.2.slots left.2.trace ∧ world.Extends left.2) _ _ (server, world)
    (server', world') ⟨hworld, .refl _⟩ ?_ h
  rintro value - ⟨server, world⟩ ⟨server', world'⟩ ⟨hrecorded, hextends⟩ hrun
  obtain ⟨hrecorded', hextends'⟩ := Behaviour.run_recorded hrecorded hrun
  exact ⟨hrecorded', hextends.trans hextends'⟩

/-- All of the observers together. -/
lemma observers_recorded {server server' : S} {observers : List (Obj × ℕ)} {polled : ℕ → List V}
    (hworld : Recorded exported world.slots world.trace)
    (h : observers.foldlM (fun (server, world) (object, i) =>
      observeAll impl pid server world object (polled i)) (server, world) = .ok (server', world')) :
    Recorded exported world'.slots world'.trace ∧ world.Extends world' := by
  refine @Checked.foldlM_keeps _ _ (fun left : S × World Obj =>
    Recorded exported left.2.slots left.2.trace ∧ world.Extends left.2) _ _ (server, world)
    (server', world') ⟨hworld, .refl _⟩ ?_ h
  rintro ⟨object, i⟩ - ⟨server, world⟩ ⟨server', world'⟩ ⟨hrecorded, hextends⟩ hrun
  obtain ⟨hrecorded', hextends'⟩ := observeAll_recorded hrecorded hrun
  exact ⟨hrecorded', hextends.trans hextends'⟩

lemma Ready.runObservables {polled : ℕ → List V} (h : d.Ready object₀ exported)
    (hobserve : d.runObservables impl pid polled = .ok d') : d'.Ready object₀ exported := by
  rw [Dispatch.runObservables] at hobserve
  obtain ⟨⟨server, world⟩, hrun, hobserve⟩ := Checked.bind_eq_ok.mp hobserve
  obtain ⟨handlers, hinstall, hobserve⟩ := Checked.bind_eq_ok.mp hobserve
  cases hobserve
  obtain ⟨hworld, hextends⟩ := observers_recorded h.recorded hrun
  obtain ⟨handlers', hinstall', hready⟩ := h.install h.recorded h.justified (fun _ _ => Iff.rfl)
    hworld hextends server
  cases hinstall.symm.trans hinstall'
  exact hready

lemma Ready.turn (h : d.Ready object₀ exported) (hturn : d.turn impl pid event = .ok d') :
    d'.Ready object₀ exported := by
  cases event with
  | receive cap method args sender =>
      obtain ⟨⟨d'', result⟩, hcall, hturn⟩ := Checked.bind_eq_ok.mp hturn
      cases hturn
      exact h.runCall hcall
  | idle polled => exact h.runObservables hturn

/-- Between two turns, the loop is ready. -/
lemma Ready.run (h : d.Ready object₀ exported) (hrun : d.run impl pid events = .ok d') :
    d'.Ready object₀ exported :=
  Checked.foldlM_keeps (fun d : Dispatch S Obj => d.Ready object₀ exported) h
    (fun _ _ _ _ hready hturn => hready.turn hturn) hrun

/-! ## Runs -/

/-- **A call reaches the object that its capability was granted for.**  In every run of a server, a call
of an index is a call of the object that the process started with, if the index is 0, and otherwise of
the one object that had been granted with this index; no index is ever used for two things, whether it
is called or not; and there are never more than 511 of them besides the first one. -/
theorem run_authority {server : S} {observers : List Obj}
    (h : (Dispatch.new server object₀ observers exported).run impl pid events = .ok d) :
    (∀ n index object sender, d.trace[n]? = some (.called index object sender) →
      (index = 0 ∧ object = object₀ ∧ ∀ action ∈ d.trace, action.slot ≠ some 0) ∨
        ∃ grantee, .granted index object grantee ∈ d.trace.take n ∧
          ∀ action ∈ d.trace, action.slot = some index → action = .granted index object grantee) ∧
      (0 :: d.trace.filterMap Action.slot).Nodup ∧
      (d.trace.filterMap Action.slot).length < capabilitiesPerPage := by
  have hready := ready_new.run h
  refine ⟨fun n index object sender hn => ?_, ?_, ?_⟩
  · rcases hready.justified n index object sender hn with ⟨rfl, rfl⟩ | ⟨grantee, hmem⟩
    · refine Or.inl ⟨rfl, rfl, fun action haction hslot => ?_⟩
      exact absurd (hready.recorded.index_mem haction hslot).1 (by decide)
    · refine Or.inr ⟨grantee, hmem, fun action haction hslot => ?_⟩
      exact hready.recorded.unique haction (List.mem_of_mem_take hmem) hslot rfl
  · -- the slots are used in order, from the second one on
    rw [hready.recorded.indices]
    refine List.nodup_cons.mpr ⟨?_, List.nodup_range'⟩
    simp
  · rw [hready.recorded.indices, List.length_range']
    have := hready.recorded.one_le
    have := hready.recorded.le
    omega

/-- A server whose objects are numbers: a method grants the next number to its caller. -/
def countingImpl : ServerImpl Unit ℕ Unit where
  callMethod := fun server _ _ object _ => .grant (object + 1) fun _ => .done (server, [])
  observe := fun server _ _ => .done server

/-- A message from a client. -/
def messageTo (pid client : ProcessId) (index : Fin capabilitiesPerPage) : Event Unit :=
  .receive (.slot (.userspace pid) index) 0 [] client

/-- The server after calls of these indices. -/
def countingRun (pid client : ProcessId) (indices : List (Fin capabilitiesPerPage)) :
    Checked (Dispatch Unit ℕ) :=
  (Dispatch.new () 7 [] (.granted .kernel)).run countingImpl pid (indices.map (messageTo pid client))

/-- The call of the granted capability is a call of the number that it was granted for. -/
theorem run_authority_counting : ∃ pid client d, countingRun pid client [0, 1] = .ok d ∧
    d.trace[2]? = some (.called 1 8 client) ∧
      ∀ action ∈ d.trace, action.slot = some 1 → action = .granted 1 8 (.userspace client) := by
  have hrun : ∃ pid client d, countingRun pid client [0, 1] = .ok d ∧
      d.trace[2]? = some (.called 1 8 client) ∧
      Action.granted 1 8 (.userspace client) ∈ d.trace :=
    ⟨⟨1, by decide, by decide⟩, ⟨2, by decide, by decide⟩, _, rfl, rfl, by decide⟩
  obtain ⟨pid, client, d, hrun, hcalled, hgranted⟩ := hrun
  refine ⟨pid, client, d, hrun, hcalled, fun action haction hslot => ?_⟩
  rcases (run_authority hrun).1 2 1 8 _ hcalled with ⟨h, -⟩ | ⟨grantee, hmem, hall⟩
  · cases h
  · rw [hall action haction hslot, hall _ hgranted rfl]

/-- What the kernel has found in the page when it delivers a message.  A slot that was never written
looks as if it was granted to the kernel. -/
def Deliverable (d : Dispatch S Obj) : Event V → Prop
  | .receive cap _ _ _ => ∃ grantee,
      (d.slots.page cap.localIndex).unpack = .ok (.granted grantee) ∧
        (grantee = .kernel → cap.localIndex.val < d.slots.allocated)
  | .idle _ => True

/-- An index whose certificate says that it was granted was granted. -/
lemma Ready.holds (h : d.Ready object₀ exported) {grantee : Actor}
    (hpage : (d.slots.page cap.localIndex).unpack = .ok (.granted grantee))
    (hkernel : grantee = .kernel → cap.localIndex.val < d.slots.allocated) :
    ∃ object, Holds object₀ d.trace cap.localIndex object := by
  have hlt : cap.localIndex.val < d.slots.allocated := by
    by_contra hge
    rw [h.recorded.free _ (Nat.le_of_not_lt hge)] at hpage
    have hunwritten : (CapabilityCertificateValue.mk 0 0).unpack = .ok (.granted .kernel) := rfl
    cases hunwritten.symm.trans hpage
    exact hge (hkernel rfl)
  by_cases hzero : cap.localIndex.val = 0
  · exact ⟨object₀, Or.inl ⟨hzero, rfl⟩⟩
  · have hmem : cap.localIndex.val ∈ d.trace.filterMap Action.slot := by
      rw [h.recorded.indices, List.mem_range'_1]
      omega
    obtain ⟨action, haction, hslot⟩ := List.mem_filterMap.mp hmem
    have hcertified := h.recorded.certified action haction _ hslot cap.localIndex.isLt
    cases action with
    | granted index object grantee' =>
        cases hslot
        exact ⟨object, Or.inr ⟨grantee', haction⟩⟩
    | forwarded index =>
        obtain ⟨forwardee, inner, hvalue⟩ := hcertified
        rw [Fin.eta] at hvalue
        rw [hvalue, CapabilityCertificateValue.unpack_forwarded] at hpage
        cases hpage
    | called index object sender => cases hslot

variable {E : Panic → Prop}

lemma Ready.turn_onlyFails (h : d.Ready object₀ exported) (hdeliverable : d.Deliverable event)
    (hcall : ∀ server method args object sender,
      (impl.callMethod server method args object sender).PanicsIn E)
    (hobserve : ∀ server value object, (impl.observe server value object).PanicsIn E) :
    OnlyFails (d.turn impl pid event) fun e => E e ∨ e = .assertion .allocateCertificate := by
  cases event with
  | receive cap method args sender =>
      obtain ⟨grantee, hpage, hkernel⟩ := hdeliverable
      obtain ⟨object, hholds⟩ := h.holds hpage hkernel
      have hobject := (h.handler _ _).mpr hholds
      refine OnlyFails.bind ?_ fun _ _ => .pure
      rw [Dispatch.runCall, hobject]
      refine (Behaviour.run_onlyFails (hcall _ _ _ _ _)).bind fun left hrun => ?_
      obtain ⟨⟨server, result⟩, world⟩ := left
      obtain ⟨handlers', hinstall, -⟩ := h.installCall hobject hrun server
      simp only [hinstall]
      exact .pure
  | idle polled =>
      have hobserveAll : ∀ server world object values,
          OnlyFails (observeAll impl pid server world object values)
            fun e => E e ∨ e = .assertion .allocateCertificate := fun server world object values =>
        .foldlM fun value _ left => Behaviour.run_onlyFails (hobserve _ _ _)
      show OnlyFails (d.runObservables impl pid polled) _
      rw [Dispatch.runObservables]
      refine OnlyFails.bind (.foldlM fun observer _ left => hobserveAll _ _ _ _) fun left hrun => ?_
      obtain ⟨server, world⟩ := left
      obtain ⟨hworld, hextends⟩ := observers_recorded h.recorded hrun
      obtain ⟨handlers', hinstall, -⟩ := h.install h.recorded h.justified (fun _ _ => Iff.rfl)
        hworld hextends server
      simp only [hinstall]
      exact .pure

/-- Every message of a run is one that the kernel can deliver. -/
def Delivered (impl : ServerImpl S Obj V) (pid : ProcessId) (d : Dispatch S Obj) :
    List (Event V) → Prop
  | [] => True
  | event :: events =>
      d.Deliverable event ∧ ∀ d', d.turn impl pid event = .ok d' → Delivered impl pid d' events

/-- **A server meets no message that it cannot handle.**  The methods and observers of a server panic only
in `E`, and each message of a run is one that the kernel can deliver, because its capability was found
granted on the page of the server.  Then the loop only panics in `E` or when all slots of that page are
used up: no message has an index without a handler, and no handler is installed twice. -/
theorem run_serves {server : S} {observers : List Obj}
    (hdelivered : Delivered impl pid (Dispatch.new server object₀ observers exported) events)
    (hcall : ∀ server method args object sender,
      (impl.callMethod server method args object sender).PanicsIn E)
    (hobserve : ∀ server value object, (impl.observe server value object).PanicsIn E) :
    OnlyFails ((Dispatch.new server object₀ observers exported).run impl pid events)
      fun e => E e ∨ e = .assertion .allocateCertificate := by
  have hready : (Dispatch.new server object₀ observers exported).Ready object₀ exported := ready_new
  generalize Dispatch.new server object₀ observers exported = d at hready hdelivered ⊢
  induction events generalizing d with
  | nil => exact .pure
  | cons event events ih =>
      obtain ⟨hdeliverable, hrest⟩ := hdelivered
      rw [Dispatch.run, List.foldlM_cons]
      exact (hready.turn_onlyFails hdeliverable hcall hobserve).bind fun d' hturn =>
        ih d' (hready.turn hturn) (hrest d' hturn)

/-- The same two calls, which the kernel can deliver. -/
theorem run_serves_counting :
    OnlyFails (countingRun ⟨1, by decide, by decide⟩ ⟨2, by decide, by decide⟩ [0, 1])
      fun e => False ∨ e = .assertion .allocateCertificate := by
  refine run_serves ⟨⟨.kernel, rfl, fun _ => by decide⟩, fun d hturn => ⟨?_, fun _ _ => trivial⟩⟩
    (fun _ _ _ _ _ _ => trivial) fun _ _ _ => trivial
  cases hturn
  exact ⟨.userspace ⟨2, by decide, by decide⟩, rfl, fun h => by cases h⟩

end Dispatch

end Deravel
