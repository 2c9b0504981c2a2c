import HarlinKernel.PagedCreation
import HarlinKernel.ProcessCreation

/-! `process_create_elf` succeeds for the images whose segments lie in the user window, while
there are free frames: 21 for the process and four for each page that is loaded. -/
namespace HarlinKernel.ProcessTable

open PageAllocator LabelledWalk PageTable AddressSpace FrameSupply

variable {s t : Kernel} {clones keep : List ℕ} {slot virt n : ℕ}

/-- The segment lies in the user window, and its bytes in the file. -/
structure Segment.Fits (seg : Segment) (size : ℕ) : Prop where
  start_le : userAddrStart ≤ seg.vaddr
  start_lt : seg.vaddr < userAddrEnd
  le_stop : seg.vaddr+seg.filesz ≤ userAddrEnd
  bytes : seg.offset+seg.filesz ≤ size

/-- The pages that hold the bytes from `vaddr` on. -/
def chunkPages (vaddr left : ℕ) : ℕ := if left = 0 then 0 else (vaddr % 4096+left+4095) / 4096

/-- How often the callback is called. -/
def loadPages (segs : List Segment) : ℕ :=
  segs.length+(segs.map fun seg => chunkPages seg.vaddr seg.filesz).sum

/-- Sound tables, and frames for so many pages of the user. -/
structure Ready (s : Kernel) (clones keep : List ℕ) (n : ℕ) : Prop where
  paged : Paged s clones keep
  enough : Enough (4*n) s.vmm.pmm

lemma Low.passable {mem : ℕ → ℕ → ℕ} {r : ℕ} (h : Low mem r) (hlow : userAddrStart ≤ virt)
    (hhg : virt < userAddrEnd) : Passable mem r virt := by
  obtain ⟨hpml4,hpd⟩ := user_indices hlow hhg
  refine ⟨?_,?_⟩
  · intro n hn
    rw [hpml4,h.pdpt] at hn
    cases hn
    decide
  · intro n hn
    rw [hpml4,hpd,h.pd] at hn
    cases hn
    decide

lemma Ready.addUserPage (h : Ready s clones keep (n+1)) (hlow : userAddrStart ≤ virt)
    (hhg : virt < userAddrEnd) (slot : ℕ) :
    (addUserPage s slot virt).1 = 0 ∧ Ready (addUserPage s slot virt).2 clones keep n := by
  have hne : (s.alloc slot).1 ≠ 0 := h.enough 0 (by omega)
  have hcl := (Within.alloc stable_sound h.paged hne).clear stable_sound
  have hnx := Within.addUserPage stable_sound h.paged slot virt
  rw [ProcessTable.addUserPage] at hnx ⊢
  simp only [hne,if_false] at hnx ⊢
  obtain ⟨u,hu⟩ : ∃ u : Kernel, u = { (s.alloc slot).2 with
    vmm := clearPagePhys (s.alloc slot).2.vmm (s.alloc slot).1 } := ⟨_,rfl⟩
  have hpmm : u.vmm.pmm = after 1 s.vmm.pmm := by rw [hu]; rfl
  rw [← hu] at hcl hnx ⊢
  obtain ⟨held,hsn,-⟩ := hcl
  have hms := hsn.masked
  dsimp only at hms
  have hrc : (u.map virt (s.alloc slot).1 (vmmPresent ||| vmmWritable ||| vmmUser)).1 = 0 := by
    refine vmmMap_succeeds _ _ hsn.tables ?_ ?_ ?_ ?_
    · rw [hms]
      exact hsn.current
    · rintro ⟨-,hbad⟩
      omega
    · rw [hms]
      exact Low.passable (hsn.spaces _ hsn.current).low hlow hhg
    · rw [hpmm]
      exact Enough.rest (h.enough.mono (by omega))
  obtain ⟨j,hj,haf⟩ := vmmMap_after u.vmm virt (s.alloc slot).1
    (vmmPresent ||| vmmWritable ||| vmmUser)
  rw [if_neg (not_not.mpr hrc)] at hnx ⊢
  refine ⟨rfl,hnx,?_⟩
  change Enough (4*n)
    (vmmMap u.vmm virt (s.alloc slot).1 (vmmPresent ||| vmmWritable ||| vmmUser)).2.pmm
  rw [haf,hpmm,after_add]
  exact Enough.rest (h.enough.mono (by omega))

lemma Ready.loadFirst {size : ℕ} {segs : List Segment} (h : Ready s clones keep (segs.length+n))
    (hsg : ∀ seg ∈ segs, seg.Fits size) (slot : ℕ) :
    (loadFirst s slot segs).1 = 0 ∧ Ready (loadFirst s slot segs).2 clones keep n := by
  induction segs generalizing s with
  | nil =>
    rw [List.length_nil,Nat.zero_add] at h
    exact ⟨rfl,h⟩
  | cons seg segs ih =>
    have hseg := hsg seg List.mem_cons_self
    rw [List.length_cons,Nat.add_right_comm] at h
    obtain ⟨hrc,hnx⟩ := h.addUserPage hseg.start_le hseg.start_lt slot
    rw [ProcessTable.loadFirst,elfAllocUserPageCb,if_neg (not_not.mpr hrc)]
    exact ih hnx fun seg' hmem => hsg seg' (List.mem_cons_of_mem _ hmem)

lemma Ready.loadChunks {fuel vaddr left : ℕ} (hfl : left ≤ fuel)
    (h : Ready s clones keep (chunkPages vaddr left+n)) (hlow : userAddrStart ≤ vaddr)
    (hhg : vaddr+left ≤ userAddrEnd) (slot : ℕ) : (loadChunks s slot fuel vaddr left).1 = 0 ∧
    Ready (loadChunks s slot fuel vaddr left).2 clones keep n := by
  induction fuel generalizing s vaddr left with
  | zero =>
    obtain rfl := Nat.le_zero.mp hfl
    refine ⟨rfl,h.paged,h.enough.mono (by omega)⟩
  | succ fuel ih =>
    rw [ProcessTable.loadChunks]
    by_cases hlf : left = 0
    · rw [if_pos hlf]
      exact ⟨rfl,h.paged,h.enough.mono (by omega)⟩
    rw [if_neg hlf]
    have hend : userAddrEnd = 0x800000 := rfl
    -- the round takes the rest of the first page, or all that is left
    have hpg : chunkPages vaddr left+n =
        chunkPages ((vaddr+min left (0x1000-vaddr % 0x1000)) % 2^64)
          (left-min left (0x1000-vaddr % 0x1000))+n+1 := by
      rw [chunkPages,chunkPages,if_neg hlf]
      split <;> omega
    rw [hpg] at h
    obtain ⟨hrc,hnx⟩ := h.addUserPage hlow (by omega) slot
    rw [elfAllocUserPageCb]
    dsimp only
    rw [if_neg (not_not.mpr hrc)]
    exact ih (by omega) hnx (by omega) (by omega)

lemma Ready.loadBytes {size : ℕ} {segs : List Segment}
    (h : Ready s clones keep ((segs.map fun seg => chunkPages seg.vaddr seg.filesz).sum+n))
    (hsg : ∀ seg ∈ segs, seg.Fits size) (slot : ℕ) :
    (loadBytes s slot size segs).1 = 0 ∧ Ready (loadBytes s slot size segs).2 clones keep n := by
  induction segs generalizing s with
  | nil =>
    rw [List.map_nil,List.sum_nil,Nat.zero_add] at h
    exact ⟨rfl,h⟩
  | cons seg segs ih =>
    have hseg := hsg seg List.mem_cons_self
    have hby := hseg.bytes
    have hrs := fun seg' hmem => hsg seg' (List.mem_cons_of_mem seg hmem)
    rw [List.map_cons,List.sum_cons,Nat.add_assoc] at h
    rw [ProcessTable.loadBytes]
    by_cases hem : seg.filesz = 0
    · rw [if_pos hem]
      exact ih ⟨h.paged,h.enough.mono (by omega)⟩ hrs
    · rw [if_neg hem,if_neg (by omega)]
      obtain ⟨hrc,hnx⟩ := h.loadChunks (le_refl seg.filesz) hseg.start_le hseg.le_stop slot
      rw [if_neg (not_not.mpr hrc)]
      exact ih hnx hrs

lemma Ready.elfLoadExec {image : ElfImage} (h : Ready s clones keep (loadPages image.segments))
    (hac : image.accepted = true) (hsg : ∀ seg ∈ image.segments, seg.Fits image.size)
    (slot : ℕ) : (elfLoadExec s slot image).1 = 0 := by
  obtain ⟨hrc,hnx⟩ := h.loadFirst hsg slot
  rw [ProcessTable.elfLoadExec,hac,if_neg Bool.true_eq_false_eq_False,if_neg (not_not.mpr hrc)]
  exact (Ready.loadBytes (n := 0) hnx hsg slot).1

lemma mapStack_after (s : Kernel) (virt : ℕ) (frames : List ℕ) :
    ∃ j ≤ 3*frames.length, (mapStack s virt frames).2.vmm.pmm = after j s.vmm.pmm := by
  induction frames generalizing s virt with
  | nil => exact ⟨0,le_rfl,rfl⟩
  | cons f frames ih =>
    obtain ⟨j,hj,hpmm⟩ := vmmMap_after s.vmm virt f (vmmPresent ||| vmmWritable)
    rw [mapStack,List.length_cons]
    split
    · exact ⟨j,by omega,hpmm⟩
    · obtain ⟨j',hj',hpmm'⟩ := ih (s.map virt f (vmmPresent ||| vmmWritable)).2 (virt+4096)
      refine ⟨j'+j,by omega,?_⟩
      have hmap : (s.map virt f (vmmPresent ||| vmmWritable)).2.vmm.pmm = after j s.vmm.pmm := hpmm
      rw [hpmm',hmap,after_add]

lemma cloneStack_after (slot : ℕ) (frames : List ℕ) (h : Enough 4 s.vmm.pmm) :
    ∃ j ≤ 16, (cloneStack s slot frames).2.2.vmm.pmm = after j s.vmm.pmm := by
  obtain ⟨-,hpmm⟩ := clone_some (s := s.vmm) h
  have hcl : (s.clone slot).2.vmm.pmm = after 4 s.vmm.pmm := hpmm
  rw [cloneStack]
  split
  · exact ⟨4,by omega,hcl⟩
  · obtain ⟨j,hj,hmap⟩ :=
      mapStack_after ((s.clone slot).2.switch (s.clone slot).1) (stackBaseOf slot)
      (frames.take 4)
    have hlen : (frames.take 4).length ≤ 4 := by rw [List.length_take]; omega
    have hsw : ((s.clone slot).2.switch (s.clone slot).1).vmm.pmm = after 4 s.vmm.pmm := hcl
    refine ⟨j+4,by omega,?_⟩
    rw [hmap,hsw,after_add]

lemma processCreateElf_succeeds {image : ElfImage} (hsl : findSlot s.processes = some slot)
    (hpg : Paged s clones []) (hps : ∀ r, (r = bootPml4 ∨ r ∈ clones) → ∀ k < 4,
    Passable s.vmm.mem r (stackBaseOf slot+k*4096)) (hac : image.accepted = true)
    (het : elfUserLoadBase ≤ image.entry) (hsg : ∀ seg ∈ image.segments, seg.Fits image.size)
    (hen : Enough (4*loadPages image.segments+21) s.vmm.pmm) :
    (processCreateElf s image).1 = slot := by
  obtain ⟨hlt,-⟩ := findSlot_some hsl
  obtain ⟨held,hsn,-⟩ := id hpg
  obtain ⟨hlen,htr,hne⟩ := prepare_succeeds slot hsn.tables hsn.spaces hsn.current hps
    (hen.mono (by omega))
  obtain ⟨-,hvmm⟩ := allocStack_enough slot (hen.mono (by omega : 5 ≤ _))
  obtain ⟨-,-,-,hcl⟩ := Within.prepare stable_sound hpg hlt
  have him : ¬ (image.accepted = false ∨ image.entry < elfUserLoadBase) := by
    rw [hac]
    simpa using het
  rw [processCreateElf,if_neg him,hsl]
  dsimp only at hlen htr hne hcl ⊢
  generalize allocStack s slot 5 = stack at hlen htr hne hvmm hcl ⊢
  have hpmm : stack.2.vmm.pmm = after 5 s.vmm.pmm := by rw [hvmm]
  have hrs : Enough (4*loadPages image.segments+16) stack.2.vmm.pmm := hpmm ▸ Enough.rest hen
  obtain ⟨j,hj,haf⟩ := cloneStack_after slot stack.1 (hrs.mono (by omega))
  rw [if_neg (not_not.mpr hlen),htr]
  rw [if_neg hne] at hcl
  have hrd : Ready (cloneStack stack.2 slot stack.1).2.2
      ((cloneStack stack.2 slot stack.1).2.1 :: clones) stack.1 (loadPages image.segments) :=
    ⟨hcl,haf ▸ Enough.rest (hrs.mono (by omega))⟩
  have hrd' : Ready ((cloneStack stack.2 slot stack.1).2.2.modify slot fun p =>
      { p with state := .blocked }) _ stack.1 (loadPages image.segments) :=
    ⟨hrd.paged,hrd.enough⟩
  rw [if_neg Bool.true_eq_false_eq_False,
    if_neg (not_not.mpr (hrd'.elfLoadExec hac hsg slot))]

end HarlinKernel.ProcessTable
