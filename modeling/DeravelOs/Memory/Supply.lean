import DeravelOs.Memory.Regions

/-!
# When the kernel heap runs out

Blocks come from the kernel heap and go back to it without a panic, except that the kernel's own
containers end the kernel when there is no block for them.

* `RunInv.alloc_total`: a request gets an answer.
* `BlocksOk.churn_outOfMemory`: the containers panic in no other way.
* `HeapOk.dropBacking_ok`: memory can always be given back.
-/

namespace Deravel

open Failure
open Dyadic (HasBlock blockOrder)

variable {P : Platform} {k k' : Kernel} {proc : Process} {blocks : List Live} {b : Backing}
  {S T : Set Backing}

/-- **A request gets an answer.** -/
lemma RunInv.alloc_total {range : AddressRange} {reserved : List AddressRange}
    {a : BuddyAllocator} {live : List Live} (h : RunInv range reserved a live) (layout : Layout) :
    ∃ result a', a.alloc layout = .ok (result, a') := by
  by_cases hblock : HasBlock (blockOrder layout.reqSize) a.arena.free
  · obtain ⟨p, a', halloc, -⟩ := BuddyAllocator.alloc_some h.inv hblock
    exact ⟨_, a', halloc⟩
  · exact ⟨_, a, BuddyAllocator.alloc_none h.inv hblock⟩

/-- The computation panics only because the containers of the kernel found no memory. -/
abbrev OnlyOutOfMemory {α : Type} (x : Checked α) : Prop := OnlyFails x fun e => e = .outOfMemory

lemma OnlyOutOfMemory.keepsStep {α : Type} {x : Checked α} (h : OnlyOutOfMemory x) : KeepsStep x :=
  OnlyFails.mono h fun _ he => he ▸ rfl

namespace Kernel

/-- The blocks of the containers can be given back. -/
lemma BlocksOk.release_ok (h : k.BlocksOk P blocks) (index : ℕ) :
    ∃ k', k.heapOp (.dealloc index) = .ok k' ∧ k'.oracle = k.oracle := by
  simp only [Kernel.heapOp]
  split
  · next block hblock =>
      obtain ⟨before, after, hsplit⟩ := List.append_of_mem (List.mem_of_getElem? hblock)
      have hrun : RunInv P.ram P.reserved k.heap (before ++ block :: (after ++ blocks)) := by
        have hall := h
        rw [BlocksOk, hsplit] at hall
        simpa using hall
      obtain ⟨heap, hdealloc, -⟩ := hrun.dealloc_ok
      rw [hdealloc]
      exact ⟨_, rfl, rfl⟩
  · exact ⟨k, rfl, rfl⟩

lemma BlocksOk.heapOp_outOfMemory (h : k.BlocksOk P blocks) {op : HeapOp} :
    OnlyOutOfMemory (k.heapOp op) := by
  cases op with
  | alloc layout =>
      refine (OnlyFails.of_ok ?_).bind fun result _ => ?_
      · obtain ⟨result, heap, halloc⟩ := RunInv.alloc_total h layout
        exact ⟨_, halloc⟩
      · obtain ⟨e | ptr, heap⟩ := result
        · exact .throw rfl
        · exact .pure
  | dealloc index =>
      obtain ⟨k', hrelease, -⟩ := h.release_ok index
      exact .of_ok ⟨k', hrelease⟩

lemma BlocksOk.churn_outOfMemory (h : k.BlocksOk P blocks) : OnlyOutOfMemory k.churn := by
  simp only [Kernel.churn]
  split
  · exact .pure
  · exact .foldlM_keeps (I := fun k => k.BlocksOk P blocks) (fun _ _ _ hk hstep => hk.heapOp hstep)
      (fun _ _ hk => hk.heapOp_outOfMemory) h

/-- Pages that have a block go back to the heap as soon as the containers are done. -/
lemma BlocksOk.dealloc_ok {granular : Layout} (h : k.BlocksOk P blocks)
    (hmem : ⟨b.ptr, granular⟩ ∈ blocks) : ∃ heap, k.heap.dealloc b.ptr granular = .ok heap := by
  obtain ⟨before, after, rfl⟩ := List.append_of_mem hmem
  have hrun : RunInv P.ram P.reserved k.heap
      ((k.internal ++ before) ++ ⟨b.ptr, granular⟩ :: after) := by
    rw [List.append_assoc]
    exact h
  obtain ⟨heap, hdealloc, -⟩ := hrun.dealloc_ok
  exact ⟨heap, hdealloc⟩

namespace HeapOk

lemma churn_outOfMemory (h : k.HeapOk P S T) : OnlyOutOfMemory k.churn := by
  obtain ⟨blocks, hblocks, -⟩ := h
  exact hblocks.churn_outOfMemory

/-- Pages of a layout that has room for its padding are found, or are not there. -/
lemma allocPages_error_eq (h : k.HeapOk P S T) {layout granular : Layout}
    {contents : ℕ → UInt8} {e : Panic} (hgranular : pageGranular layout = .ok granular)
    (halloc : k.allocPages layout contents = .error e) : k.churn = .error e := by
  obtain ⟨blocks, hblocks, -⟩ := h
  simp only [Kernel.allocPages] at halloc
  split at halloc
  · cases halloc
  · cases hchurn : k.churn with
    | error e' =>
        rw [hchurn] at halloc
        cases halloc
        rfl
    | ok k₁ =>
        obtain ⟨result, heap, hheap⟩ := RunInv.alloc_total (hblocks.churn hchurn) granular
        rw [hchurn, Checked.ok_bind, hgranular, Checked.ok_bind, hheap, Checked.ok_bind] at halloc
        obtain e' | ptr := result
        · cases halloc
        · cases halloc

/-- Memory that has a block goes back to the heap. -/
lemma freePages_ok (h : k.HeapOk P S T) (hb : b ∈ S ∪ T) (hsize : 0 < b.byteSize) :
    ∃ k', k.freePages b = .ok k' := by
  obtain ⟨blocks, hblocks, hkept, -⟩ := h
  cases hkept b hb with
  | dangling hzero hptr => exact absurd hzero hsize.ne'
  | block granular hgranular hmem =>
      obtain ⟨heap, hdealloc⟩ := hblocks.dealloc_ok hmem
      exact ⟨{ k with heap := heap }, by
        rw [Kernel.freePages, hgranular, Checked.ok_bind, hdealloc]
        rfl⟩

lemma dropBacking_ok (h : k.HeapOk P S T) (hb : b ∈ S ∪ T) (hsize : 0 < b.byteSize) :
    ∃ k', k.dropBacking b = .ok k' := by
  by_cases hholds : k.holds b = true
  · exact ⟨k, if_pos hholds⟩
  · obtain ⟨k', hfree⟩ := h.freePages_ok hb hsize
    exact ⟨k', (if_neg hholds).trans hfree⟩

/-! ## No panic out of step -/

lemma allocPages_keepsStep (h : k.HeapOk P S T) {layout : Layout} {contents : ℕ → UInt8} :
    KeepsStep (k.allocPages layout contents) := by
  obtain ⟨blocks, hblocks, -⟩ := h
  refine .ite (fun _ => .pure) fun _ => ?_
  refine hblocks.churn_outOfMemory.keepsStep.bind fun k _ => ?_
  refine (PanicsAt.keepsStep pageGranular_panics (by decide)).bind fun _ _ => ?_
  refine (PanicsAt.keepsStep BuddyAllocator.alloc_panics (by decide)).bind fun result _ => ?_
  obtain ⟨e | ptr, heap⟩ := result
  · exact .pure
  · exact .pure

lemma dropBacking_keepsStep (h : k.HeapOk P S T) (hb : b ∈ S ∪ T) (hsize : 0 < b.byteSize) :
    KeepsStep (k.dropBacking b) := .of_ok (h.dropBacking_ok hb hsize)

end HeapOk

end Kernel

end Deravel
