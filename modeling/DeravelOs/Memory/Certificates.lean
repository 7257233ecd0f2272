import DeravelOs.Capability.Validate
import DeravelOs.Memory.Blocks

/-!
# Certificates in memory

The capability pages are a static of the kernel.  What `capability_certificate` reads and writes
there, through the direct mapping, is one slot of them and nothing else.

* `Kernel.certificate`: the certificate in a slot.
* `storeCertificate_certificate`: a slot that is stored has what was stored, the others have what
  they had.
-/

namespace Deravel

variable {P : Platform} {k k' : Kernel} {actor actor' : Actor}
  {index index' : Fin capabilitiesPerPage} {cap : RawCapability}
  {value : CapabilityCertificateValue}

/-! ## Bytes -/

lemma wordOf_bytesOf (word : UInt32) : wordOf (bytesOf word) = word := by
  apply UInt32.toNat_inj.mp
  have hlt := word.toNat_lt
  simp [wordOf, bytesOf, UInt32.toNat_add, UInt32.toNat_mul, UInt32.toNat_div]
  omega

/-- What was stored is loaded. -/
lemma CapabilityCertificateValue.ofBytes_toBytes (v : CapabilityCertificateValue) :
    ofBytes v.toBytes = v := by
  have hfirst : v.toBytes.take 4 = bytesOf v.grantee := rfl
  have hsecond : v.toBytes.drop 4 = bytesOf v.payload := rfl
  rw [ofBytes, hfirst, hsecond, wordOf_bytesOf, wordOf_bytesOf]

/-- Bytes that are stored one after the other fill their range. -/
lemma storeBytes_range' (bytes : List UInt8) (memory : ℕ → UInt8) (start p : ℕ) :
    storeBytes memory ((List.range' start bytes.length).zip bytes) p =
      fillMemory memory start bytes.length (fun i => bytes.getD i 0) p := by
  rw [fillMemory]
  induction bytes generalizing memory start with
  | nil =>
      have hnot : ¬ (start ≤ p ∧ p < start + 0) := by omega
      exact (if_neg hnot).symm
  | cons byte rest ih =>
      simp only [List.length_cons, List.range'_succ, List.zip_cons_cons, storeBytes, ih]
      by_cases hp : start + 1 ≤ p ∧ p < start + 1 + rest.length
      · have hall : start ≤ p ∧ p < start + (rest.length + 1) := by omega
        have hsub : p - start = p - (start + 1) + 1 := by omega
        rw [if_pos hp, if_pos hall, hsub, List.getD_cons_succ]
      · rw [if_neg hp]
        by_cases heq : p = start
        · subst heq
          simp
        · rw [Function.update_of_ne heq, if_neg (by omega)]

/-! ## Slots -/

namespace Platform

/-- Where a slot lies in memory. -/
def certificateAddress (P : Platform) (actor : Actor) (index : Fin capabilitiesPerPage) : ℕ :=
  physOf P.capabilityPages + actor.pageIndex * pageSize + index * 8

/-- The page of an actor in memory. -/
def capabilityPage (P : Platform) (actor : Actor) : Set ℕ :=
  Set.Ico (physOf P.capabilityPages + actor.pageIndex * pageSize)
    (physOf P.capabilityPages + actor.pageIndex * pageSize + pageSize)

lemma physOf_capabilityPages (P : Platform) {i : ℕ} (hi : i < (processCount + 1) * pageSize) :
    physOf (P.capabilityPages + i) = physOf P.capabilityPages + i ∧
      P.capabilityPages + i ∈ P.image.addresses := by
  obtain ⟨h1, h2⟩ := P.capability_static
  have hhere : P.capabilityPages + i ∈ P.image.addresses := ⟨by omega, by omega⟩
  have hfirst : P.capabilityPages ∈ P.image.addresses := ⟨h1, by omega⟩
  exact ⟨P.physOf_add (P.image_subset hfirst) (P.image_subset hhere), hhere⟩

lemma capabilityPage_subset (P : Platform) (actor : Actor) :
    P.capabilityPage actor ⊆ P.imageFrames := by
  intro p hp
  have hle : actor.pageIndex ≤ processCount := actor.pageIndex_le
  have hpages : actor.pageIndex * pageSize ≤ processCount * pageSize :=
    Nat.mul_le_mul_right _ hle
  obtain ⟨h1, h2⟩ := hp
  have hi : p - physOf P.capabilityPages < (processCount + 1) * pageSize := by
    rw [add_mul, one_mul]
    omega
  obtain ⟨hphys, hmem⟩ := P.physOf_capabilityPages hi
  exact ⟨_, hmem, by omega⟩

lemma certificateAddress_mem (actor : Actor) (index : Fin capabilitiesPerPage) {i : ℕ}
    (hi : i < 8) : P.certificateAddress actor index + i ∈ P.capabilityPage actor := by
  have hindex : index.val < 512 := index.isLt
  simp only [certificateAddress, capabilityPage, Set.mem_Ico, pageSize]
  omega

lemma capabilityCertificate_eq_ok {slot : ℕ} :
    P.capabilityCertificate cap = .ok slot ↔
      ∃ certifier, cap.certifier = .ok certifier ∧
        slot = P.certificateAddress certifier cap.localIndex := by
  have haddress : ∀ certifier : Actor, physOf (P.capabilityPages +
      certifier.pageIndex * pageSize + cap.localIndex * 8) =
        P.certificateAddress certifier cap.localIndex := by
    intro certifier
    have hindex : cap.localIndex.val < 512 := cap.localIndex.isLt
    have hle : certifier.pageIndex ≤ 8 := certifier.pageIndex_le
    rw [add_assoc, (P.physOf_capabilityPages ?_).1, certificateAddress, add_assoc]
    simp only [processCount, pageSize]
    omega
  simp only [capabilityCertificate, Checked.bind_eq_ok, Checked.pure_eq_ok, haddress]
  simp only [eq_comm]

end Platform

namespace Kernel

/-- The certificate in a slot. -/
def certificate (P : Platform) (k : Kernel) (actor : Actor) (index : Fin capabilitiesPerPage) :
    CapabilityCertificateValue :=
  .ofBytes ((List.range' (P.certificateAddress actor index) 8).map k.memory)

lemma loadCertificate_eq_ok :
    k.loadCertificate P cap = .ok value ↔
      ∃ certifier, cap.certifier = .ok certifier ∧
        value = k.certificate P certifier cap.localIndex := by
  simp only [loadCertificate, Checked.bind_eq_ok, Platform.capabilityCertificate_eq_ok,
    Checked.pure_eq_ok]
  constructor
  · rintro ⟨slot, ⟨certifier, hcertifier, rfl⟩, rfl⟩
    exact ⟨certifier, hcertifier, rfl⟩
  · rintro ⟨certifier, hcertifier, rfl⟩
    exact ⟨_, ⟨certifier, hcertifier, rfl⟩, rfl⟩

lemma storeCertificate_eq_ok :
    k.storeCertificate P cap value = .ok k' ↔
      ∃ certifier, cap.certifier = .ok certifier ∧
        k' = { k with
          memory := storeBytes k.memory
            ((List.range' (P.certificateAddress certifier cap.localIndex) 8).zip
              value.toBytes) } := by
  simp only [storeCertificate, Checked.bind_eq_ok, Platform.capabilityCertificate_eq_ok,
    Checked.pure_eq_ok]
  constructor
  · rintro ⟨slot, ⟨certifier, hcertifier, rfl⟩, rfl⟩
    exact ⟨certifier, hcertifier, rfl⟩
  · rintro ⟨certifier, hcertifier, rfl⟩
    exact ⟨_, ⟨certifier, hcertifier, rfl⟩, rfl⟩

/-- A certificate depends on the bytes of its page only. -/
lemma certificate_congr (h : ∀ p ∈ P.capabilityPage actor, k'.memory p = k.memory p) :
    k'.certificate P actor index = k.certificate P actor index := by
  rw [certificate, certificate]
  congr 1
  refine List.map_congr_left fun p hp => ?_
  obtain ⟨i, hi, rfl⟩ := List.mem_range'.mp hp
  rw [one_mul]
  exact h _ (Platform.certificateAddress_mem actor index hi)

lemma certificateAddress_ne (h : ¬ (actor = actor' ∧ index = index')) {i j : ℕ} (hi : i < 8)
    (hj : j < 8) :
    P.certificateAddress actor index + i ≠ P.certificateAddress actor' index' + j := by
  have hindex : index.val < 512 := index.isLt
  have hindex' : index'.val < 512 := index'.isLt
  intro heq
  simp only [Platform.certificateAddress, pageSize] at heq
  have hpage : actor.pageIndex = actor'.pageIndex := by omega
  refine h ⟨?_, Fin.ext (by omega)⟩
  cases actor with
  | kernel =>
      cases actor' with
      | kernel => rfl
      | userspace pid => exact absurd hpage.symm pid.pos.ne'
  | userspace pid =>
      cases actor' with
      | kernel => exact absurd hpage pid.pos.ne'
      | userspace pid' => exact congrArg Actor.userspace (ProcessId.ext hpage)

lemma storeCertificate_memory (h : k.storeCertificate P cap value = .ok k')
    (hcertifier : cap.certifier = .ok actor) (p : ℕ) :
    k'.memory p = fillMemory k.memory (P.certificateAddress actor cap.localIndex) 8
      (fun i => value.toBytes.getD i 0) p := by
  obtain ⟨certifier, hcertifier', rfl⟩ := storeCertificate_eq_ok.mp h
  rw [hcertifier] at hcertifier'
  cases hcertifier'
  exact storeBytes_range' value.toBytes k.memory (P.certificateAddress actor cap.localIndex) p

/-- **Storing a certificate.**  The slot of the capability has it, the others keep theirs. -/
theorem storeCertificate_certificate (h : k.storeCertificate P cap value = .ok k')
    (hcertifier : cap.certifier = .ok actor) (actor' : Actor) (index' : Fin capabilitiesPerPage) :
    k'.certificate P actor' index' =
      if actor' = actor ∧ index' = cap.localIndex then value else k.certificate P actor' index' := by
  have hstored := storeCertificate_memory h hcertifier
  split
  · next heq =>
      obtain ⟨rfl, rfl⟩ := heq
      rw [← value.ofBytes_toBytes, certificate]
      congr 1
      have hlength : value.toBytes.length = 8 := rfl
      refine List.ext_getElem (by simp [hlength]) fun i h1 h2 => ?_
      rw [List.getElem_map, List.getElem_range', one_mul, hstored, fillMemory, if_pos (by omega),
        Nat.add_sub_cancel_left, List.getD_eq_getElem?_getD, List.getElem?_eq_getElem h2,
        Option.getD_some]
  · next hne =>
      rw [certificate, certificate]
      congr 1
      refine List.map_congr_left fun p hp => ?_
      obtain ⟨i, hi, rfl⟩ := List.mem_range'.mp hp
      rw [one_mul, hstored, fillMemory, if_neg]
      rintro ⟨h1, h2⟩
      obtain ⟨j, hj⟩ := Nat.exists_eq_add_of_le h1
      exact certificateAddress_ne hne hi (by omega) hj

end Kernel

end Deravel
