import DeravelOs.Lib.CyclicScan
import DeravelOs.Ipc.Peers
import DeravelOs.Memory.Supply
import DeravelOs.Memory.System

/-!
# The scheduler

`find_runnable_process` goes around the process table, from the slot after the running process on.
On its way it removes whoever has finished, and whoever waits for a process that has finished or is
not there; then it takes the first process that can run.

* `scan_cases`: what a scan that comes back has done, as a `CyclicScan`.
* `Scannable.scan_total`: a scan comes back.
* `findRunnableProcess_picks`: the scheduler picks the first one, and reaps only the dead.
-/

namespace Deravel

open CyclicScan (slot visit visited)

variable {P : Platform} {k k' : Kernel} {proc proc' : Process} {index start n m : ℕ}

/-- A process that a scan removes: one that has finished, or that waits for a process which has
finished or is not there. -/
def isDead (table : ℕ → Option Process) (proc : Process) : Bool :=
  proc.state = .finished || match proc.state.waitsFor with
    | some (.userspace server) => (table server.asU16).all fun dest => dest.state = .finished
    | _ => false

/-- Whether the scheduler picks a process. -/
def Process.canRun (proc : Process) : Bool := proc.state.canRun

/-- The table after some visits of a scan. -/
abbrev tableAt (table : ℕ → Option Process) (start n : ℕ) : ℕ → Option Process :=
  visited isDead processCount start table n

/-! ## What is left alone -/

/-- The page tables of the processes. -/
def Kernel.pageTables (k : Kernel) : Set PageTable :=
  {t | ∃ i proc, k.processes i = some proc ∧ proc.pageTable = t}

/-- A scan changes the table, gives memory back and writes to the console.  The hart sees no page
table that no process has. -/
structure Kernel.OnlyScanned (k k' : Kernel) : Prop where
  same : k' = { k with
    processes := k'.processes, heap := k'.heap, internal := k'.internal, oracle := k'.oracle,
    hart := k'.hart, console := k'.console }
  pageTables : k'.pageTables ⊆ k.pageTables
  hart : ∀ t ∈ k'.hart, t ∈ k.hart ∨ t ∈ k.pageTables

namespace Kernel

lemma OnlyScanned.refl (k : Kernel) : k.OnlyScanned k := ⟨rfl, subset_rfl, fun _ => Or.inl⟩

lemma OnlyScanned.trans {k'' : Kernel} (h : k.OnlyScanned k') (h' : k'.OnlyScanned k'') :
    k.OnlyScanned k'' := by
  refine ⟨h'.same.trans ?_, h'.pageTables.trans h.pageTables, fun t ht => ?_⟩
  · rw [h.same]
  · rcases h'.hart t ht with ht | ht
    · exact h.hart t ht
    · exact Or.inr (h.pageTables ht)

/-- The table after a process was replaced by one with its page table, or removed. -/
lemma pageTables_update {slot : Option Process} (hproc : k.processes index = some proc)
    (hslot : ∀ proc', slot = some proc' → proc'.pageTable = proc.pageTable)
    (hprocesses : k'.processes = Function.update k.processes index slot) :
    k'.pageTables ⊆ k.pageTables := by
  rintro t ⟨i, proc', hproc', rfl⟩
  rw [hprocesses, Function.update_apply] at hproc'
  split at hproc'
  · exact ⟨index, proc, hproc, (hslot proc' hproc').symm⟩
  · exact ⟨i, proc', hproc', rfl⟩

lemma reap_onlyScanned (hproc : k.processes index = some proc')
    (h : k.reap index proc = .ok k') :
    k.OnlyScanned k' ∧ k'.processes = Function.update k.processes index none := by
  have hmemory := dropAllocated_memory h
  obtain ⟨memory, heap, internal, oracle, rfl⟩ := reap_onlyMemory h
  obtain rfl : memory = k.memory := hmemory
  refine ⟨⟨rfl, pageTables_update hproc (fun proc'' hnone => ?_) rfl, fun _ => Or.inl⟩, rfl⟩
  cases hnone

end Kernel

/-! ## One visit -/

lemma ProcessState.of_canRun {state : ProcessState} (h : state.canRun = true) :
    state.waitsFor = none ∧ state ≠ .finished := by
  cases state with
  | runnable => exact ⟨rfl, by simp⟩
  | readyReply reply resultBuffer => exact ⟨rfl, by simp⟩
  | readyStreamMap ring declaredSize => exact ⟨rfl, by simp⟩
  | finished => cases h
  | waitingForReply server resultBuffer => cases h
  | waitingForStreamMap server => cases h

lemma ProcessState.of_waitsFor {state : ProcessState} {actor : Actor}
    (h : state.waitsFor = some actor) : state.canRun = false ∧ state ≠ .finished := by
  cases state with
  | waitingForReply server resultBuffer => exact ⟨rfl, by simp⟩
  | waitingForStreamMap server => exact ⟨rfl, by simp⟩
  | runnable => cases h
  | readyReply reply resultBuffer => cases h
  | readyStreamMap ring declaredSize => cases h
  | finished => cases h

/-- A process that can run is not dead. -/
lemma isDead_of_canRun {table : ℕ → Option Process} (h : proc.state.canRun = true) :
    isDead table proc = false := by
  obtain ⟨hwaits, hfinished⟩ := ProcessState.of_canRun h
  simp [isDead, hwaits, hfinished]

namespace Kernel

/-- `inspect_can_progress` finishes whoever is dead. -/
lemma inspectCanProgress_spec (hslots : k.Slots) (hproc : k.processes index = some proc)
    (h : k.inspectCanProgress proc = .ok (k', proc')) :
    isDead k.processes proc = true ∧ proc'.state = .finished ∧ proc'.id = proc.id ∧
        k.OnlyScanned k' ∧ k'.processes = Function.update k.processes index (some proc') ∨
      isDead k.processes proc = false ∧ k' = k ∧ proc' = proc := by
  have hid := hslots hproc
  simp only [inspectCanProgress] at h
  split at h
  · next server hwaits =>
      obtain ⟨-, hunfinished⟩ := ProcessState.of_waitsFor hwaits
      obtain ⟨dest, hlock, h⟩ := Checked.bind_eq_ok.mp h
      obtain ⟨-, -, hdest⟩ := lockIfSome_eq_ok hlock
      have hdead : isDead k.processes proc = dest.all fun dest => dest.state = .finished := by
        rw [← hdest]
        simp [isDead, hwaits, hunfinished, process?]
      rw [hdead]
      split at h
      · next hall =>
          cases h
          have hprocesses : Function.update k.processes proc.id.asU16
              (some { proc with state := .finished }) =
            Function.update k.processes index (some { proc with state := .finished }) := by rw [hid]
          refine Or.inl ⟨hall, rfl, rfl, ⟨rfl, ?_, fun t ht => ?_⟩, hprocesses⟩
          · refine pageTables_update hproc ?_ hprocesses
            intro _ hsome
            cases hsome
            rfl
          · simp only [logKill, Kernel.setProcess] at ht
            split at ht
            · rcases List.mem_cons.mp ht with rfl | ht
              · exact Or.inr ⟨index, proc, hproc, rfl⟩
              · exact Or.inl ht
            · exact Or.inl ht
      · next hsome =>
          cases h
          exact Or.inr ⟨Bool.eq_false_iff.mpr hsome, rfl, rfl⟩
  · next hwaits =>
      cases h
      have hdead : isDead k.processes proc = decide (proc.state = .finished) := by
        rw [isDead]
        split
        · next server hserver => exact absurd hserver (hwaits server)
        · rw [Bool.or_false]
      by_cases hfinished : proc.state = .finished
      · refine Or.inl ⟨by rw [hdead, hfinished]; rfl, hfinished, rfl, .refl _, ?_⟩
        rw [← hproc, Function.update_eq_self]
      · exact Or.inr ⟨by rw [hdead]; exact decide_eq_false hfinished, rfl, rfl⟩

/-- One round of the loop: a process that can run is taken, and else the slot is visited. -/
lemma scan_cons {offset : ℕ} {rest : List ℕ} {r : Option Process} (hslots : k.Slots)
    (h : k.scan start (offset :: rest) = .ok (k', r)) :
    (∃ proc, k.processes (slot processCount start offset) = some proc ∧ proc.canRun = true ∧
        r = some proc ∧ k' = k) ∨
      ∃ k₁, k.OnlyScanned k₁ ∧ k₁.Slots ∧
        k₁.processes = visit isDead k.processes (slot processCount start offset) ∧
        (∀ proc, k.processes (slot processCount start offset) = some proc → proc.canRun = false) ∧
        k₁.scan start rest = .ok (k', r) := by
  simp only [scan] at h
  split at h
  · next hnone =>
      have hnone : k.processes (slot processCount start offset) = none := hnone
      refine Or.inr ⟨k, .refl k, hslots, ?_, by simp [hnone], h⟩
      rw [visit, hnone]
      rfl
  · next proc hproc =>
      have hproc : k.processes (slot processCount start offset) = some proc := hproc
      obtain ⟨⟨k₁, proc₁⟩, hinspect, hrest⟩ := Checked.bind_eq_ok.mp h
      rcases inspectCanProgress_spec hslots hproc hinspect with
        ⟨hdead, hfinished, hid, honly, hprocesses⟩ | ⟨halive, rfl, rfl⟩
      · -- whoever is dead by now is removed
        rw [hfinished, if_neg (by simp [ProcessState.canRun]), if_pos rfl] at hrest
        obtain ⟨k₂, hreap, hrest⟩ := Checked.bind_eq_ok.mp hrest
        have hproc₁ : k₁.processes (slot processCount start offset) = some proc₁ := by
          rw [hprocesses, Function.update_self]
        obtain ⟨honly₂, hprocesses₂⟩ := reap_onlyScanned hproc₁ hreap
        have hremoved : k₂.processes =
            Function.update k.processes (slot processCount start offset) none := by
          rw [hprocesses₂, hprocesses]
          exact Function.update_idem _ _ _
        refine Or.inr ⟨k₂, honly.trans honly₂, (hslots.remove _).of_processes hremoved, ?_, ?_,
          hrest⟩
        · rw [hremoved, visit, hproc, Option.any_some, if_pos hdead]
        · rintro proc' hproc'
          obtain rfl := Option.some.inj (hproc.symm.trans hproc')
          by_contra hrun
          rw [isDead_of_canRun (Bool.eq_true_of_not_eq_false hrun)] at hdead
          cases hdead
      · split at hrest
        · next hrun =>
            cases hrest
            exact Or.inl ⟨proc₁, hproc, hrun, rfl, rfl⟩
        · next hrun =>
            have hunfinished : proc₁.state ≠ .finished := by
              intro hfinished
              rw [isDead, hfinished] at halive
              cases halive
            rw [if_neg hunfinished] at hrest
            refine Or.inr ⟨k₁, .refl k₁, hslots, ?_, ?_, hrest⟩
            · rw [visit, hproc, Option.any_some, halive]
              rfl
            · rintro proc' hproc'
              obtain rfl := Option.some.inj (hproc.symm.trans hproc')
              exact Bool.eq_false_iff.mpr hrun

/-- **What a scan does.**  It visits slots until there is a process that can run. -/
theorem scan_cases {table : ℕ → Option Process} {r : Option Process} (hslots : k.Slots)
    (htable : k.processes = tableAt table start n) (hcount : n + m = processCount)
    (hpassed : ∀ o < n, ∀ proc, table (slot processCount start o) = some proc →
      proc.canRun = false)
    (h : k.scan start (List.range' n m) = .ok (k', r)) :
    ∃ visits, CyclicScan.Stops Process.canRun processCount start table visits r ∧ k.OnlyScanned k' ∧
      k'.processes = tableAt table start visits := by
  induction m generalizing k n with
  | zero =>
      cases h
      refine ⟨n, ⟨by omega, hpassed, ?_, fun _ => by omega⟩, .refl _, htable⟩
      intro proc hproc
      cases hproc
  | succ m ih =>
      rw [List.range'_succ] at h
      have hahead : k.processes (slot processCount start n) = table (slot processCount start n) := by
        rw [htable]
        exact CyclicScan.visited_ahead le_rfl (by omega)
      obtain ⟨proc, hproc, hrun, rfl, rfl⟩ | ⟨k₁, honly, hslots₁, hvisit, hnot, h⟩ :=
        scan_cons hslots h
      · rw [hahead] at hproc
        refine ⟨n, ⟨by omega, hpassed, ?_, ?_⟩, .refl _, htable⟩
        · intro proc' hproc'
          obtain rfl := Option.some.inj hproc'
          exact ⟨by omega, hproc, hrun⟩
        · intro hnone
          cases hnone
      · rw [hahead] at hnot
        rw [htable] at hvisit
        have hnext : k₁.processes = tableAt table start (n + 1) := hvisit
        obtain ⟨visits, hstops, honly', hprocesses⟩ := ih hslots₁ hnext (by omega)
          (fun o ho => by
            rcases Nat.lt_succ_iff_lt_or_eq.mp ho with hlt | rfl
            · exact hpassed o hlt
            · exact hnot) h
        exact ⟨visits, hstops, honly.trans honly', hprocesses⟩

/-! ## A scan comes back -/

/-- The memory of a process goes back to the heap. -/
lemma HeapOk.dropAllocated_ok {entries : List (ℕ × Backing)}
    (h : k.HeapOk P (k.counted ∪ {b | b ∈ entries.map Prod.snd}) k.pinned)
    (hcount : ∀ i proc, k.processes i = some proc → i < processCount)
    (hsize : ∀ entry ∈ entries, 0 < entry.2.byteSize) :
    ∃ k', k.dropAllocated entries = .ok k' := by
  induction entries generalizing k with
  | nil => exact ⟨k, rfl⟩
  | cons entry rest ih =>
      have hinsert : k.counted ∪ {b | b ∈ (entry :: rest).map Prod.snd} =
          insert entry.2 (k.counted ∪ {b | b ∈ rest.map Prod.snd}) := by
        ext b
        simp only [List.map_cons, List.mem_cons, Set.mem_union, Set.mem_ofPred_eq,
          Set.mem_insert_iff]
        tauto
      rw [hinsert] at h
      have hrest : ∀ entry ∈ rest, 0 < entry.2.byteSize := fun entry hentry =>
        hsize entry (List.mem_cons_of_mem _ hentry)
      simp only [Kernel.dropAllocated]
      split
      · exact ih (h.mono (Set.subset_insert _ _) subset_rfl) hcount hrest
      · next hlast =>
          obtain ⟨k₁, hfirst⟩ := h.dropBacking_ok
            (Or.inl (Set.mem_insert _ _)) (hsize entry List.mem_cons_self)
          have honly := dropBacking_onlyMemory hfirst
          rw [hfirst]
          refine ih (h.dropBacking hcount ?_ hfirst) ?_ hrest
          · intro c hc heq
            obtain ⟨other, hother, rfl⟩ := List.mem_map.mp hc
            exact hlast (List.any_eq_true.mpr ⟨other, hother, by simpa using heq⟩)
          · intro i proc hproc
            rw [honly.processes] at hproc
            exact hcount i proc hproc

/-- A table that can be scanned: memory is in order, what processes have is memory of some size, and
nobody waits for itself or for a number without a slot. -/
structure Scannable (P : Platform) (k : Kernel) : Prop where
  memory : k.MemoryOk P ∅
  sized : ∀ i proc, k.processes i = some proc → ∀ entry ∈ proc.allocated, 0 < entry.2.byteSize
  waits : ∀ i proc, k.processes i = some proc → ∀ server,
    proc.state.waitsFor = some (.userspace server) → server.asU16 < processCount ∧ server ≠ proc.id

namespace Scannable

/-- A table of which some processes are left, maybe as finished ones. -/
lemma of_sub (h : k.Scannable P) (hmemory : k'.MemoryOk P ∅)
    (hsub : ∀ i proc', k'.processes i = some proc' → ∃ proc, k.processes i = some proc ∧
      proc'.allocated = proc.allocated ∧ (proc' = proc ∨ proc'.state = .finished)) :
    k'.Scannable P where
  memory := hmemory
  sized i proc' hproc' := by
    obtain ⟨proc, hproc, hallocated, -⟩ := hsub i proc' hproc'
    rw [hallocated]
    exact h.sized i proc hproc
  waits i proc' hproc' server hwaits := by
    obtain ⟨proc, hproc, -, rfl | hfinished⟩ := hsub i proc' hproc'
    · exact h.waits i proc' hproc server hwaits
    · rw [hfinished] at hwaits
      cases hwaits

lemma inspectCanProgress (h : k.Scannable P) (hproc : k.processes index = some proc) :
    ∃ k₁ proc₁, k.inspectCanProgress proc = .ok (k₁, proc₁) ∧ k₁.Scannable P ∧
      k₁.processes index = some proc₁ := by
  have hid := h.memory.slots hproc
  simp only [Kernel.inspectCanProgress]
  split
  · next server hwaits =>
      obtain ⟨hlt, hne⟩ := h.waits index proc hproc server hwaits
      have hlock : k.lockIfSome [proc.id] server = .ok (k.process? server) := by
        rw [lockIfSome, ensure_pos hlt, ensure_pos (by simpa using hne)]
        rfl
      rw [hlock, Checked.ok_bind]
      split
      · refine ⟨_, _, rfl, h.of_sub ?_ fun i proc' hproc' => ?_, ?_⟩
        · refine MemoryOk.logKill ?_
          exact h.memory.setSame hproc rfl rfl rfl
        · change Function.update k.processes proc.id.asU16 _ i = some proc' at hproc'
          rw [hid, Function.update_apply] at hproc'
          split at hproc'
          · next hi =>
              cases hproc'
              exact ⟨proc, hi ▸ hproc, rfl, Or.inr rfl⟩
          · exact ⟨proc', hproc', rfl, Or.inl rfl⟩
        · show Function.update k.processes proc.id.asU16 _ index = _
          rw [hid, Function.update_self]
      · exact ⟨k, proc, rfl, h, hproc⟩
  · exact ⟨k, proc, rfl, h, hproc⟩

lemma reap (h : k.Scannable P) (hproc : k.processes index = some proc) :
    ∃ k₁, k.reap index proc = .ok k₁ ∧ k₁.Scannable P := by
  have hslot : ∀ i proc', Function.update k.processes index none i = some proc' →
      k.processes i = some proc' := by
    intro i proc' hproc'
    rw [Function.update_apply] at hproc'
    split at hproc'
    · cases hproc'
    · exact hproc'
  let emptied : Kernel := { k with processes := Function.update k.processes index none }
  have hheap : emptied.HeapOk P
      (emptied.counted ∪ {b | b ∈ proc.allocated.map Prod.snd}) emptied.pinned := by
    refine h.memory.heap.mono ?_ subset_rfl
    rintro b (((⟨i, proc', hproc', hb⟩ | hb) | hb) | hb)
    · exact Or.inl (MemoryOk.memory_subset (hslot i proc' hproc') hb)
    · exact Or.inl (Or.inl (Or.inr hb))
    · exact Or.inl (Or.inr hb)
    · obtain ⟨⟨virt, b'⟩, hentry, rfl⟩ := List.mem_map.mp hb
      exact Or.inl (MemoryOk.memory_subset hproc ⟨virt, hentry⟩)
  obtain ⟨k₁, hdrop⟩ := hheap.dropAllocated_ok
    (fun i proc' hproc' => h.memory.count i proc' (hslot i proc' hproc')) (h.sized index proc hproc)
  have hreap : k.reap index proc = .ok k₁ := hdrop
  refine ⟨k₁, hreap, h.of_sub (h.memory.reap hproc hreap) fun i proc' hproc' => ?_⟩
  rw [(reap_onlyScanned hproc hreap).2] at hproc'
  exact ⟨proc', hslot i proc' hproc', rfl, Or.inl rfl⟩

/-- **A scan comes back.** -/
theorem scan_total (h : k.Scannable P) (start : ℕ) (offsets : List ℕ) :
    ∃ k' r, k.scan start offsets = .ok (k', r) := by
  induction offsets generalizing k with
  | nil => exact ⟨k, none, rfl⟩
  | cons offset rest ih =>
      simp only [Kernel.scan]
      split
      · exact ih h
      · next proc hproc =>
          obtain ⟨k₁, proc₁, hinspect, h₁, hproc₁⟩ := h.inspectCanProgress hproc
          rw [hinspect, Checked.ok_bind]
          split
          · exact ⟨k₁, some proc₁, rfl⟩
          · split
            · obtain ⟨k₂, hreap, h₂⟩ := h₁.reap hproc₁
              rw [hreap, Checked.ok_bind]
              exact ih h₂
            · exact ih h₁

end Scannable

/-- The slot after the one of the running process. -/
def scanStart (k : Kernel) : ℕ :=
  match k.userPid with
  | some pid => pid.asU16 + 1
  | none => 0

/-- **The scheduler picks the first process that can run, and reaps only the dead.**  It goes around
the table once from the slot after the running process on, and stops at the first process that can
run, which is as it was.  Of the slots before, those are empty now whose process was dead when it
was visited; all others are as they were.  It finds no process if and only if there is none that can
run.  It comes back from every table in which nobody waits for itself or for a number without a
slot. -/
theorem findRunnableProcess_picks (hslots : k.Slots) :
    (∀ k' r, k.findRunnableProcess = .ok (k', r) → ∃ visits,
      CyclicScan.Stops Process.canRun processCount k.scanStart k.processes visits r ∧
      (∀ m < visits, k'.processes (slot processCount k.scanStart m) =
        if (k.processes (slot processCount k.scanStart m)).any
          (isDead (tableAt k.processes k.scanStart m)) then none
        else k.processes (slot processCount k.scanStart m)) ∧
      (∀ i, (∀ m < visits, i ≠ slot processCount k.scanStart m) →
        k'.processes i = k.processes i) ∧
      (r = none ↔ ∀ i < processCount, ∀ proc, k.processes i = some proc → proc.canRun = false) ∧
      k.OnlyScanned k') ∧
    (k.Scannable P → ∃ k' r, k.findRunnableProcess = .ok (k', r)) := by
  refine ⟨fun k' r hfind => ?_, fun h => h.scan_total k.scanStart (List.range processCount)⟩
  have hscan : k.scan k.scanStart (List.range' 0 processCount) = .ok (k', r) := by
    rw [← List.range_eq_range']
    exact hfind
  have hstart : k.processes = tableAt k.processes k.scanStart 0 := rfl
  obtain ⟨visits, hstops, honly, hprocesses⟩ := scan_cases hslots hstart (Nat.zero_add _)
    (fun o ho => absurd ho (Nat.not_lt_zero o)) hscan
  refine ⟨visits, hstops, fun m hm => ?_, fun i hi => ?_, hstops.eq_none_iff, honly⟩
  · exact (congrFun hprocesses _).trans (CyclicScan.visited_behind hm hstops.le_size)
  · exact (congrFun hprocesses i).trans (CyclicScan.visited_of_ne hi)

set_option maxRecDepth 10000 in
/-- The first turn of the scheduler on a small machine. -/
theorem findRunnableProcess_picks_first : ∃ k k' r visits, main .small .quiet = .ok k ∧
    k.findRunnableProcess = .ok (k', r) ∧
    CyclicScan.Stops Process.canRun processCount k.scanStart k.processes visits r := by
  have hmain : ((main .small .quiet).toOption.any fun k =>
      (List.range processCount).all fun i => (k.processes i).all fun proc =>
        (proc.allocated.all fun entry => 0 < entry.2.byteSize) && proc.state.waitsFor.isNone) =
      true := by
    decide +kernel
  obtain ⟨k, hsome, hall⟩ := (Option.any_eq_true _ _).mp hmain
  have hk := Checked.toOption_eq_some.mp hsome
  have hmemory := main_memoryOk hk
  have hslot : ∀ i proc, k.processes i = some proc →
      (∀ entry ∈ proc.allocated, 0 < entry.2.byteSize) ∧ proc.state.waitsFor = none := by
    intro i proc hproc
    have hproc' := List.all_eq_true.mp hall i (List.mem_range.mpr (hmemory.count i proc hproc))
    rw [hproc, Option.all_some, Bool.and_eq_true_iff] at hproc'
    exact ⟨by simpa using hproc'.1, by simpa using hproc'.2⟩
  have hscannable : k.Scannable .small := by
    refine ⟨hmemory, fun i proc hproc => (hslot i proc hproc).1, fun i proc hproc server hwaits => ?_⟩
    rw [(hslot i proc hproc).2] at hwaits
    cases hwaits
  obtain ⟨k', r, hfind⟩ := (findRunnableProcess_picks hmemory.slots).2 hscannable
  obtain ⟨visits, hstops, -⟩ :=
    (findRunnableProcess_picks (P := .small) hmemory.slots).1 k' r hfind
  exact ⟨k, k', r, visits, hk, hfind, hstops⟩

/-- A process that has called a server. -/
def calling (proc : Process) (server : ProcessId) : Process :=
  { proc with state := .waitingForReply (.userspace server) ⟨1, 0⟩ }

set_option maxRecDepth 10000 in
/-- **A scan that visits a process which waits for a number without a slot does not come back.**
`ProcessId::new` lets number 8 through, and `get_process` indexes past the table with it. -/
theorem not_findRunnableProcess_picks : ∃ k : Kernel, k.Slots ∧
    (∀ i proc server, k.processes i = some proc →
      proc.state.waitsFor = some (.userspace server) → server ≠ proc.id) ∧
    (∃ i proc, i < processCount ∧ k.processes i = some proc ∧ proc.canRun = true) ∧
    k.findRunnableProcess = .error (.indexOutOfBounds .getProcess) := by
  have hmain : ((main .small .quiet).toOption.any fun k =>
      ((List.range processCount).all fun i => (k.processes i).all fun proc =>
        proc.state.waitsFor.isNone) && ((k.processes 2).any Process.canRun &&
      (k.processes 1).any fun proc =>
        (k.setProcess (calling proc ⟨8, by decide, by decide⟩)).findRunnableProcess.stopsWith
          (.indexOutOfBounds .getProcess))) = true := by
    decide +kernel
  obtain ⟨k, hsome, htable⟩ := (Option.any_eq_true _ _).mp hmain
  obtain ⟨hall, hfound⟩ := Bool.and_eq_true_iff.mp htable
  obtain ⟨hsecond, hfirst⟩ := Bool.and_eq_true_iff.mp hfound
  obtain ⟨proc₂, hproc₂, hruns⟩ := (Option.any_eq_true _ _).mp hsecond
  obtain ⟨proc₁, hproc₁, hstops⟩ := (Option.any_eq_true _ _).mp hfirst
  have hmemory := main_memoryOk (Checked.toOption_eq_some.mp hsome)
  have hid : proc₁.id.asU16 = 1 := hmemory.slots hproc₁
  refine ⟨k.setProcess (calling proc₁ ⟨8, by decide, by decide⟩), hmemory.slots.setProcess _, ?_,
    ⟨2, proc₂, by decide, ?_, hruns⟩, Checked.stopsWith_iff.mp hstops⟩
  · intro i proc server hproc hwaits heq
    rw [setProcess_processes, Function.update_apply] at hproc
    split at hproc
    · cases hproc
      obtain rfl : ⟨8, by decide, by decide⟩ = server := Actor.userspace.inj (Option.some.inj hwaits)
      have height : 8 = proc₁.id.asU16 := congrArg ProcessId.asU16 heq
      omega
    · have hnone := List.all_eq_true.mp hall i (List.mem_range.mpr (hmemory.count i proc hproc))
      rw [hproc, Option.all_some] at hnone
      rw [Option.isNone_iff_eq_none.mp hnone] at hwaits
      cases hwaits
  · rw [setProcess_processes, Function.update_of_ne, hproc₂]
    exact fun heq => absurd (hid.symm.trans heq.symm) (by decide)

end Kernel

end Deravel
