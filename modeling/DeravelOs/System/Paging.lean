import DeravelOs.Memory.Holders
import DeravelOs.Memory.Supply
import DeravelOs.System.Translations

/-!
# One page for each index of a demand-paged mapping

A mapping of the drive is shared: `map_shared` puts it at a new range in whatever process has the
capability, with the pages that the mapping has at that time, and each process loads the other pages
when it faults.  The mapping only ever gets pages, so a page that two ranges miss is loaded for both,
and the mapping then has it twice.

* `Kernel.LoadsOnce`: the page at the fault is not one that its mapping has already.
* `ReachableWith.onePage`: as long as every fault is so, a mapping has one page for each index, every
  range shows that page, and `map_shared` never finds a page in its way.
* `not_onePage`: two ranges of one process fault at the same page.
-/

namespace Deravel

open Failure PageTable

variable {P : Platform} {k : Kernel} {proc next : Process} {t : PageTable} {virt : ℕ}
  {s s' : Kernel × Mode} {mapping : VirtualMemoryMapping} {mappings : List VirtualMemoryMapping}
  {regions : List Region} {O : ProcessId → ℕ × Backing → Prop}

/-! ## One page for each index -/

/-- The mapping has at most one page for each index. -/
def VirtualMemoryMapping.OnePage (mapping : VirtualMemoryMapping) : Prop :=
  (mapping.backedPages.map Prod.fst).Nodup

namespace VirtualMemoryMapping.OnePage

/-- A page with a new index joins. -/
lemma append (h : mapping.OnePage) {i : ℕ} {b : Backing}
    (hnew : ∀ page ∈ mapping.backedPages, page.1 ≠ i) :
    OnePage { mapping with backedPages := mapping.backedPages ++ [(i, b)] } := by
  rw [OnePage, List.map_append]
  refine List.nodup_append.mpr ⟨h, List.nodup_singleton _, ?_⟩
  intro j hj j' hj' heq
  obtain ⟨page, hpage, rfl⟩ := List.mem_map.mp hj
  obtain rfl := List.mem_singleton.mp hj'
  exact hnew page hpage heq

lemma eq_of_mem (h : mapping.OnePage) {i : ℕ} {b b' : Backing}
    (hb : (i, b) ∈ mapping.backedPages) (hb' : (i, b') ∈ mapping.backedPages) : b = b' :=
  congrArg Prod.snd (List.inj_on_of_nodup_map h hb hb' rfl)

end VirtualMemoryMapping.OnePage

/-- What the page table has at an address of a page: the page of the mapping, or nothing. -/
lemma VirtualMemoryMapping.PageOk.translate {i v : ℕ} (h : mapping.PageOk t virt i)
    (hv : v ∈ Set.Ico (virt + pageSize * i) (virt + pageSize * i + pageSize)) :
    t.translate v = none ∨ ∃ b, (i, b) ∈ mapping.backedPages ∧
      t.translate v =
        some (physOf b.ptr + (v - (virt + pageSize * i)), PageFlags.readonly.asUser) := by
  rcases h with hnone | ⟨b, hb, hsize, hmapped⟩
  · exact Or.inl (translate_eq_none.mpr (hnone v hv))
  · exact Or.inr ⟨b, hb, hmapped.translate (by rwa [hsize])⟩

/-- A process sees the pages of a mapping at each of its ranges. -/
lemma Process.RegionsOk.window (h : proc.RegionsOk O mappings) {range : AddressRange} {index offset : ℕ}
    (hwindow : (range, index) ∈ proc.virtualMemoryMappings)
    (hoffset : range.start + offset < range.stop) :
    ∃ mapping, mappings[index]? = some mapping ∧
      (proc.pageTable.translate (range.start + offset) = none ∨
        ∃ b, (offset / pageSize, b) ∈ mapping.backedPages ∧
          proc.pageTable.translate (range.start + offset) =
            some (physOf b.ptr + offset % pageSize, PageFlags.readonly.asUser)) := by
  obtain ⟨regions, hstep⟩ := h.inStep
  obtain ⟨r, hr, size, hcontent, rfl⟩ := hstep.windows range index hwindow
  obtain ⟨mapping, hmapping, -, -, hpages⟩ : ∃ mapping, mappings[index]? = some mapping ∧
      mapping.size = size ∧ r.ptr + size ≤ virtualAddresses.stop ∧
      ∀ i, pageSize * i < size → mapping.PageOk proc.pageTable r.ptr i := by
    have hmapped := hstep.mapped r hr
    rw [Region.Mapped, hcontent] at hmapped
    exact hmapped
  have hlt : pageSize * (offset / pageSize) < size :=
    (Nat.mul_div_le offset pageSize).trans_lt (Nat.lt_of_add_lt_add_left hoffset)
  have hmem : r.ptr + offset ∈ Set.Ico (r.ptr + pageSize * (offset / pageSize))
      (r.ptr + pageSize * (offset / pageSize) + pageSize) := by
    refine mem_page_iff.mpr ⟨Nat.le_add_right _ _, ?_⟩
    rw [Nat.add_sub_cancel_left]
  refine ⟨mapping, hmapping, ((hpages _ hlt).translate hmem).imp_right ?_⟩
  rintro ⟨b, hb, htranslate⟩
  refine ⟨b, hb, htranslate.trans ?_⟩
  rw [Nat.add_sub_add_left, ← Nat.mod_eq_sub]

/-! ## Nothing is in the way -/

/-- The pages of a mapping are mapped without finding each other. -/
lemma Kernel.mapBackedPage_keepsStep {pages : List (ℕ × Backing)} (ht : Built t)
    (hstop : ∀ page ∈ pages, virt + pageSize * page.1 + pageSize ≤ virtualAddresses.stop)
    (honce : (pages.map Prod.fst).Nodup)
    (hvacant : ∀ page ∈ pages, ∀ v ∈ Set.Ico (virt + pageSize * page.1)
      (virt + pageSize * page.1 + pageSize), walk 2 t v = none) :
    KeepsStep (pages.foldlM (mapBackedPage virt) t) := by
  induction pages generalizing t with
  | nil => exact .pure
  | cons page rest ih =>
      obtain ⟨hstop₁, hstop⟩ := List.forall_mem_cons.mp hstop
      obtain ⟨hvacant₁, hvacant⟩ := List.forall_mem_cons.mp hvacant
      rw [List.map_cons, List.nodup_cons] at honce
      rw [List.foldlM_cons]
      refine OnlyFails.bind ?_ fun t₁ hfirst => ?_
      · refine (PanicsAt.keepsStep virtToPhys_panics (by decide)).bind fun phys _ => ?_
        exact map_keepsStep ht fun _ => hvacant₁
      · obtain ⟨phys, -, hmap⟩ := Checked.bind_eq_ok.mp hfirst
        obtain ⟨-, -, hfilled⟩ := map_eq_ok ht.wf hmap
        refine ih (.map ht hmap) hstop honce.2 fun other hother v hv => ?_
        have hframe : walk 2 t₁ v = walk 2 t v := by
          refine hfilled.frame v (mem_rootView.mpr (hv.2.trans_le (hstop other hother))) fun hmem => ?_
          have hsame : other.1 = page.1 := by
            rw [← (mem_page_iff.mp hv).2, (mem_page_iff.mp hmem).2]
          exact honce.1 (hsame ▸ List.mem_map_of_mem hother)
        exact hframe.trans (hvacant other hother v hv)

namespace Kernel

/-- **`shared_memory_map` finds nothing in its way** at a block that the heap has just given. -/
theorem sharedMemoryMap_keepsStep (h : proc.holdings.InStep k.mappings regions) (hok : k.MappingsOk)
    (hone : ∀ mapping ∈ k.mappings, mapping.OnePage) {handler : Handler} {length size : ℕ}
    {layout : Layout} {heap : BuddyAllocator} (hlength : k.sharedMemorySize handler = .ok length)
    (hle : length ≤ size) (hlayout : pageLayout size = .ok layout)
    (halloc : proc.heap.alloc layout = .ok (.ok virt, heap)) :
    KeepsStep (k.sharedMemoryMap handler virt { proc with heap := heap }) := by
  cases handler with
  | sharedMemory b =>
      cases hlength
      refine (PanicsAt.keepsStep virtToPhys_panics (by decide)).bind fun phys _ => ?_
      refine OnlyFails.bind ?_ fun _ _ => .pure
      refine map_keepsStep h.built fun hr => ?_
      have hwhole : Region.Whole ⟨virt, layout, .backing b false⟩ :=
        pageLayout_region hlayout hr.aligned.size hle rfl
      exact h.alloc_vacant hwhole halloc
  | mapping index =>
      obtain ⟨mapping, hget, hlength⟩ := Checked.bind_eq_ok.mp hlength
      cases hlength
      have hmem := List.mem_of_getElem? (getMapping_eq_ok hget)
      have hdvd : pageSize ∣ mapping.size := hok.whole mapping hmem
      have hwhole : Region.Whole ⟨virt, layout, .paged index mapping.size⟩ :=
        pageLayout_region hlayout hdvd hle rfl
      have hvacant := h.alloc_vacant hwhole halloc
      have hstop : virt + mapping.size ≤ virtualAddresses.stop :=
        (hwhole.stop_le (h.alloc_block (r := ⟨virt, layout, .paged index mapping.size⟩) halloc)
          List.mem_cons_self).trans (by decide)
      simp only [sharedMemoryMap, hget, Checked.ok_bind]
      refine OnlyFails.bind ?_ fun _ _ => .pure
      refine mapBackedPage_keepsStep h.built (fun page hpage => ?_) (hone mapping hmem)
        fun page hpage v hv => hvacant v (page_inside hdvd (hok.pages mapping hmem page hpage).1 hv)
      exact (page_end_le hdvd (hok.pages mapping hmem page hpage).1).trans hstop
  | _ => cases hlength

/-- `map_shared` finds nothing in its way. -/
lemma RegionsOk.mapShared_keepsStep (h : k.RegionsOk O VirtualMemoryMapping.OnePage)
    (hmemory : k.MemoryOk P ∅) {cap : RawCapability} : KeepsStep (k.mapShared cap) := by
  refine (PanicsAt.keepsStep process_panics (by decide)).bind fun proc hproc => ?_
  refine (PanicsAt.keepsStep validate_panics (by decide)).bind fun result _ => ?_
  cases result with
  | error err => exact PanicsAt.keepsStep killRefused_panics (by decide)
  | ok root =>
      refine (PanicsAt.keepsStep RawCapability.certifier_panics (by decide)).bind fun _ _ => ?_
      refine .ite (fun _ => .pure) fun _ => ?_
      refine (PanicsAt.keepsStep getHandler_panics (by decide)).bind fun handler _ => ?_
      refine (PanicsAt.keepsStep sharedMemorySize_panics (by decide)).bind fun length hlength => ?_
      refine (PanicsAt.keepsStep nextMultipleOfPage_panics (by decide)).bind fun padded hpadded => ?_
      refine (PanicsAt.keepsStep pageLayout_panics (by decide)).bind fun layout hlayout => ?_
      refine (PanicsAt.keepsStep BuddyAllocator.alloc_panics (by decide)).bind fun result halloc => ?_
      obtain ⟨e | virt, heap⟩ := result
      · exact .pure
      · obtain ⟨regions, hstep⟩ := (h.running hproc).inStep
        have hle : length ≤ padded := by
          rw [nextMultipleOfPage_eq_ok hpadded]
          exact le_nextMultipleOf _ _
        refine hmemory.heap.churn_outOfMemory.keepsStep.bind fun k₁ hchurn => ?_
        refine OnlyFails.bind ?_ fun _ _ => .pure
        rw [(churn_usesHeap hchurn).sharedMemoryMap]
        exact sharedMemoryMap_keepsStep hstep h.mappings h.each hlength hle hlayout halloc

/-- A process that gets a ring finds nothing in its way. -/
lemma RegionsOk.resumeProcess_keepsStep (h : k.RegionsOk O VirtualMemoryMapping.OnePage)
    (hmemory : k.MemoryOk P ∅) (hnext : k.process? next.id = some next) :
    KeepsStep (k.resumeProcess next) := by
  simp only [Kernel.resumeProcess]
  split
  · exact .pure
  · refine (PanicsAt.keepsStep writeToUser_panics (by decide)).bind fun result _ => ?_
    cases result with
    | error err => exact .pure
    | ok k => exact .pure
  · refine (PanicsAt.keepsStep getHandler_panics (by decide)).bind fun handler _ => ?_
    refine (PanicsAt.keepsStep sharedMemorySize_panics (by decide)).bind fun length hlength => ?_
    refine (PanicsAt.keepsStep pageLayout_panics (by decide)).bind fun layout hlayout => ?_
    refine (PanicsAt.keepsStep BuddyAllocator.alloc_panics (by decide)).bind fun result halloc => ?_
    obtain ⟨e | virt, heap⟩ := result
    · exact .throw rfl
    · obtain ⟨regions, hstep⟩ := (h.process hnext).inStep
      obtain ⟨blocks, hblocks, -⟩ := hmemory.heap
      have hblocks' : (k.setUserspaceProcess next).BlocksOk P blocks := hblocks
      refine hblocks'.churn_outOfMemory.keepsStep.bind fun k₁ hchurn => ?_
      refine OnlyFails.bind ?_ fun _ _ => .pure
      rw [(churn_usesHeap hchurn).sharedMemoryMap]
      exact sharedMemoryMap_keepsStep (k := k.setUserspaceProcess next) hstep
        ⟨h.mappings.whole, h.mappings.pages⟩ h.each hlength le_rfl hlayout halloc
  · exact .throw rfl

/-! ## Runs -/

/-- The page at a fault is not one that the mapping behind the address has already. -/
def LoadsOnce (k : Kernel) (stval : ℕ) : Prop :=
  ∀ ⦃proc⦄, k.process [] = .ok proc → ∀ ⦃range index⦄, (range, index) ∈ proc.virtualMemoryMappings →
    range.start ≤ stval → stval < range.stop → proc.pageTable.isMapped stval = .ok false →
    ∀ ⦃mapping⦄, k.mappings[index]? = some mapping →
      ∀ page ∈ mapping.backedPages, page.1 ≠ (stval - range.start) / pageSize

end Kernel

/-- The step is not a fault at a page that its mapping has already. -/
def FaultsOnce (s : Kernel × Mode) (cause : Option Cause) : Prop :=
  ∀ stval, cause = some (.pageFault stval) → s.1.LoadsOnce stval

lemma ReachableWith.regionsOk (h : ReachableWith P FaultsOnce s) :
    s.1.RegionsOk (fun _ _ => True) VirtualMemoryMapping.OnePage := by
  induction h with
  | main oracle hmain => exact Kernel.main_regionsOk hmain
  | @step s s' cause reachable honce hstep ih =>
      have hmemory := reachable.reachable.memoryOk
      cases hstep with
      | user hstep =>
          refine ih.congr ?_ ?_
          · rw [hstep.same]
          · rw [hstep.same]
      | @trap k cause k' mode oracle htrap =>
          refine (ih.withOracle oracle).onUserTrap (hmemory.withOracle oracle)
            (fun _ _ => List.nodup_nil) ?_ (fun _ _ _ _ => trivial) htrap
          rintro stval rfl proc hproc range index hwindow hstart hstop hmissing mapping hmapping b hone
          have hproc' : k.process [] = .ok proc := (Kernel.process_congr rfl rfl []).trans hproc
          exact hone.append (honce stval rfl hproc' hwindow hstart hstop hmissing hmapping)
      | schedule oracle hturn =>
          exact (ih.withOracle oracle).scheduleUserspace (hmemory.withOracle oracle) hturn

/-- **One page for each index.**  In every run in which no process faults at a page that the mapping
has already, every mapping has at most one page for each index, all ranges of a mapping that show a
page show the same one, and neither `map_shared` nor a process that is resumed finds a page in the
way of `shared_memory_map`. -/
theorem ReachableWith.onePage (h : ReachableWith P FaultsOnce s) :
    (∀ mapping ∈ s.1.mappings, (mapping.backedPages.map Prod.fst).Nodup) ∧
    (∀ i j proc proc', s.1.processes i = some proc → s.1.processes j = some proc' →
      ∀ range range' index, (range, index) ∈ proc.virtualMemoryMappings →
        (range', index) ∈ proc'.virtualMemoryMappings →
      ∀ offset, range.start + offset < range.stop → range'.start + offset < range'.stop →
      ∀ entry entry', proc.pageTable.translate (range.start + offset) = some entry →
        proc'.pageTable.translate (range'.start + offset) = some entry' → entry = entry') ∧
    (∀ cap, s.1.mapShared cap ≠ .error (.assertion .mapLeaf)) ∧
    (∀ next, s.1.process? next.id = some next →
      s.1.resumeProcess next ≠ .error (.assertion .mapLeaf)) := by
  have hregions := h.regionsOk
  refine ⟨hregions.each, ?_, ?_, ?_⟩
  · intro i j proc proc' hproc hproc' range range' index hwindow hwindow' offset hoffset hoffset'
      entry entry' hentry hentry'
    obtain ⟨mapping, hmapping, hpage⟩ := (hregions.process hproc).window hwindow hoffset
    obtain ⟨mapping', hmapping', hpage'⟩ := (hregions.process hproc').window hwindow' hoffset'
    obtain rfl := Option.some.inj (hmapping.symm.trans hmapping')
    rcases hpage with hnone | ⟨b, hb, htranslate⟩
    · rw [hnone] at hentry
      cases hentry
    · rcases hpage' with hnone | ⟨b', hb', htranslate'⟩
      · rw [hnone] at hentry'
        cases hentry'
      · obtain rfl := (hregions.each mapping (List.mem_of_getElem? hmapping)).eq_of_mem hb hb'
        have hsame := htranslate.trans htranslate'.symm
        exact Option.some.inj (hentry.symm.trans (hsame.trans hentry'))
  · intro cap hstop
    have helsewhere := hregions.mapShared_keepsStep h.reachable.memoryOk hstop
    cases helsewhere
  · intro next hnext hstop
    have helsewhere := hregions.resumeProcess_keepsStep h.reachable.memoryOk hnext hstop
    cases helsewhere

/-- A process of a small machine gets the first page of the disk as a region of the drive, and maps it
twice. -/
def mapTwiceMoves : List Move :=
  [.schedule,
    .user [(.a6, 1), (.a0, 0x2000040), (.a1, 1), (.a2, 12288), (.a3, 2), (.a4, 12288), (.a5, 8)]
      [(12289, 8)], .trap .userEnvCall,
    .user [(.a6, 7), (.a0, 0x2000048)] [], .trap .userEnvCall,
    .user [(.a6, 7), (.a0, 0x2000048)] [], .trap .userEnvCall]

set_option maxRecDepth 10000 in
/-- The page is loaded where the process touches it. -/
theorem ReachableWith.onePage_loaded : ∃ s, ReachableWith .small FaultsOnce s ∧
    (s.1.mappings.map fun mapping => mapping.backedPages.map Prod.fst) = [[0]] ∧
    (∀ mapping ∈ s.1.mappings, (mapping.backedPages.map Prod.fst).Nodup) ∧
    ∀ cap, s.1.mapShared cap ≠ .error (.assertion .mapLeaf) := by
  have hplay : ((play .small .quiet mapTwiceMoves).any fun s =>
      (s.1.mappings.all fun mapping => mapping.backedPages.isEmpty) ∧
      (Move.next .small .quiet s (.trap (.pageFault 0x3ffc000000))).any fun s' =>
        (s'.1.mappings.map fun mapping => mapping.backedPages.map Prod.fst) = [[0]]) = true := by
    decide +kernel
  obtain ⟨s, hplayed, hstate⟩ := (Option.any_eq_true _ _).mp hplay
  obtain ⟨hempty, hstate⟩ := of_decide_eq_true hstate
  obtain ⟨s', hnext, hpages⟩ := (Option.any_eq_true _ _).mp hstate
  have hbefore : ReachableWith .small FaultsOnce s := by
    refine play_reachableWith (fun move hmem s stval hcause => ?_) hplayed
    simp only [mapTwiceMoves, List.mem_cons, List.not_mem_nil, or_false] at hmem
    rcases hmem with rfl | rfl | rfl | rfl | rfl | rfl | rfl <;> cases hcause
  have hfirst : FaultsOnce s (Move.cause (.trap (.pageFault 0x3ffc000000))) := by
    intro stval _ proc _ range index _ _ _ _ mapping hmapping page hpage
    have hnone := List.all_eq_true.mp hempty mapping (List.mem_of_getElem? hmapping)
    rw [List.isEmpty_iff.mp hnone] at hpage
    cases hpage
  have hreached : ReachableWith .small FaultsOnce s' :=
    .step hbefore hfirst (Move.next_step hnext)
  obtain ⟨hone, -, hshare, -⟩ := ReachableWith.onePage hreached
  exact ⟨s', hreached, of_decide_eq_true hpages, hone, hshare⟩

/-- The process touches both ranges. -/
def touchTwiceMoves : List Move :=
  mapTwiceMoves ++ [.trap (.pageFault 0x3ffc000000), .trap (.pageFault 0x3ffc001000)]

/-- The capability of the region. -/
def regionCapability : RawCapability := ⟨0x2000048, by decide⟩

set_option maxRecDepth 10000 in
/-- **Two ranges of one mapping load its first page twice,** and then show different pages, and the
next `map_shared` of the mapping ends the kernel. -/
theorem not_onePage : ∃ s, Reachable .small s ∧
    (∃ mapping ∈ s.1.mappings, ¬ (mapping.backedPages.map Prod.fst).Nodup) ∧
    (∃ proc, s.1.process [] = .ok proc ∧
      ∃ range range' index, (range, index) ∈ proc.virtualMemoryMappings ∧
        (range', index) ∈ proc.virtualMemoryMappings ∧
        ∃ entry entry', proc.pageTable.translate range.start = some entry ∧
          proc.pageTable.translate range'.start = some entry' ∧ entry.1 ≠ entry'.1) ∧
    s.1.mapShared regionCapability = .error (.assertion .mapLeaf) := by
  have hplay : ((play .small .quiet touchTwiceMoves).any fun s =>
      (s.1.mappings.any fun mapping => ¬ (mapping.backedPages.map Prod.fst).Nodup) ∧
      ((s.1.process []).toOption.any fun proc => proc.virtualMemoryMappings.any fun vmm =>
        proc.virtualMemoryMappings.any fun vmm' => vmm.2 = vmm'.2 ∧
          (proc.pageTable.translate vmm.1.start).any fun entry =>
            (proc.pageTable.translate vmm'.1.start).any fun entry' => entry.1 ≠ entry'.1) ∧
      (s.1.mapShared regionCapability).stopsWith (.assertion .mapLeaf)) = true := by
    decide +kernel
  obtain ⟨s, hplayed, hstate⟩ := (Option.any_eq_true _ _).mp hplay
  obtain ⟨htwice, hshown, hstops⟩ := of_decide_eq_true hstate
  obtain ⟨mapping, hmapping, htwice⟩ := List.any_eq_true.mp htwice
  obtain ⟨proc, hproc, hshown⟩ := (Option.any_eq_true _ _).mp hshown
  obtain ⟨⟨range, index⟩, hwindow, hshown⟩ := List.any_eq_true.mp hshown
  obtain ⟨⟨range', index'⟩, hwindow', hshown⟩ := List.any_eq_true.mp hshown
  obtain ⟨rfl : index = index', hshown⟩ := of_decide_eq_true hshown
  obtain ⟨entry, hentry, hshown⟩ := (Option.any_eq_true _ _).mp hshown
  obtain ⟨entry', hentry', hdiffer⟩ := (Option.any_eq_true _ _).mp hshown
  refine ⟨s, play_reachable hplayed, ⟨mapping, hmapping, of_decide_eq_true htwice⟩, ?_,
    Checked.stopsWith_iff.mp hstops⟩
  exact ⟨proc, Checked.toOption_eq_some.mp hproc, range, range', index, hwindow, hwindow', entry,
    entry', hentry, hentry', of_decide_eq_true hdiffer⟩

end Deravel
