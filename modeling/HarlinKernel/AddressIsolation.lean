import HarlinKernel.AddressSpace

/-! Runs of the kernel's paging calls, and when a user page mapped in one address space
leaves the others alone. -/
namespace HarlinKernel.AddressSpace

open Bitmap PageAllocator LabelledWalk PageTable TransitionSystem

/-- The paging state with the PML4s obtained and the frames that other code holds. -/
structure Kernel where
  vmm : Vmm
  clones : List ℕ
  held : List ℕ

inductive Call
  | clone
  | switch (pml4Phys : ℕ)
  | map (virt phys flags : ℕ)
  | unmap (virt : ℕ)
  | alloc
  | free (addr : ℕ)

def Call.run (s : Kernel) : Call → ℤ × Kernel
  | .clone =>
    let r := vmmCloneKernelPml4 s.vmm
    (r.1,{ s with
      vmm := r.2
      clones := if r.1 = 0 then s.clones else r.1 :: s.clones })
  | .switch pml4Phys => (0,{ s with vmm := vmmSwitch s.vmm pml4Phys })
  | .map virt phys flags =>
    let r := vmmMap s.vmm virt phys flags
    (r.1,{ s with vmm := r.2 })
  | .unmap virt => (0,{ s with vmm := vmmUnmap s.vmm virt })
  | .alloc =>
    let r := allocPage s.vmm
    (r.1,{ s with
      vmm := r.2
      held := if r.1 = 0 then s.held else r.1 :: s.held })
  | .free addr =>
    (0,{ s with
      vmm := { s.vmm with pmm := pmmFree s.vmm.pmm addr }
      held := s.held.erase addr })

/-- The state after the boot code, `pmm_init` and `vmm_init`, whatever memory held before. -/
def Booted (s : Kernel) : Prop :=
  s.clones = [] ∧ s.held = [] ∧
    ∃ mem p bssEnd, vmmInit (bootState mem (pmmInit p bssEnd)) bootPml4 = some s.vmm

def roots (s : Kernel) : Set ℕ := {r | r = bootPml4 ∨ r ∈ s.clones}

/-- Callers switch to PML4s they have, leave the mapping of the PML4 alone and free frames
they hold. -/
def Proper (s : Kernel) (a : Call × ℤ) : Prop :=
  match a.1 with
  | .clone => True
  | .switch pml4Phys => pml4Phys ∈ roots s
  | .map virt _ flags => flags < 8 ∧ labels virt ≠ labels kernelPml4Virt
  | .unmap virt => labels virt ≠ labels kernelPml4Virt
  | .alloc => True
  | .free addr => addr ∈ s.held

def kernelRuns : System Kernel (Call × ℤ) := (calls Booted Call.run).guarded Proper

/-- The frame is in use by other code. -/
structure Held (s : Kernel) (f : ℕ) : Prop where
  used : ¬ FreeFrame s.vmm.pmm f
  outside : Outside s.vmm.mem (roots s) f
  managed : ∃ i < s.vmm.pmm.totalPages, f = frameAddr i

structure Sound (s : Kernel) : Prop where
  tables : Tables s.vmm.mem s.vmm.pmm (roots s)
  spaces : ∀ r ∈ roots s, Space s.vmm.mem r
  current : s.vmm.currentPml4Phys ∈ roots s
  held : ∀ f ∈ s.held, Held s f
  nodup : s.held.Nodup

variable {s : Kernel} {f virt phys flags r B : ℕ} {p : Pmm} {mem : ℕ → ℕ → ℕ}

lemma Sound.boot (h : Booted s) : Sound s := by
  obtain ⟨hcl,hhl,mem,p,bssEnd,hin⟩ := h
  have hrt : roots s = {bootPml4} := by
    ext r
    simp [roots,hcl]
  obtain ⟨htab,hcr,hsp,-⟩ := vmmInit_spec (pmmInit_sized p bssEnd) hin
  refine ⟨?_,?_,?_,?_,?_⟩
  · rw [hrt]
    exact htab
  · rw [hrt]
    rintro r rfl
    exact hsp
  · rw [hrt]
    exact hcr
  all_goals simp [hhl]

lemma Held.extend {t : Kernel} (h : Held s f) (hp : Shrunk s.vmm.pmm t.vmm.pmm)
    (htr : ∀ r ∈ roots t, ∀ q n, descend (next t.vmm.mem) (0,r) q = some n →
      (∃ r' ∈ roots s, descend (next s.vmm.mem) (0,r') q = some n) ∨ FreeFrame s.vmm.pmm n.2) :
    Held t f := by
  refine ⟨fun hfr => h.used (hp.free _ hfr),?_,?_⟩
  · intro r hr q n hn hbad
    rcases htr r hr q n hn with ⟨r',hr',hn'⟩ | hfr
    · exact h.outside r' hr' q n hn' hbad
    · exact h.used (hbad ▸ hfr)
  · rw [hp.total]
    exact h.managed

lemma Sound.extend {t : Vmm} (h : Sound s) (hext : Extended s.vmm t (roots s))
    (hsl : ∀ r ∈ roots s, physAddr t.mem r kernelPml4Virt = physAddr s.vmm.mem r kernelPml4Virt) :
    Sound { s with vmm := t } := by
  refine ⟨hext.tables,?_,?_,?_,h.nodup⟩
  · intro r hr
    exact (h.spaces r hr).extend hr hext (hsl r hr)
  · simp only [hext.current]
    exact h.current
  · intro f hf
    refine (h.held f hf).extend hext.pmm ?_
    intro r hr q n hn
    exact (hext.new r hr q n hn).imp_left fun hn => ⟨r,hr,hn⟩

lemma Sound.masked (h : Sound s) : rootFrame s.vmm = s.vmm.currentPml4Phys :=
  (h.spaces _ h.current).frame

lemma Sound.clone (h : Sound s) : Sound (Call.run s .clone).2 := by
  rcases vmmCloneKernelPml4_spec h.tables h.spaces h.current with ⟨hzr,hkp⟩ | hcl
  · have hsm := h.extend hkp.toExtended fun r hr => hkp.same r hr _
    simpa only [Call.run,hzr,if_true] using hsm
  have hne : (vmmCloneKernelPml4 s.vmm).1 ≠ 0 := by
    intro hzr
    obtain ⟨i,-,hi,-⟩ := hcl.fresh
    exact frameAddr_ne_zero i (hi.symm.trans hzr)
  simp only [Call.run,hne,if_false]
  have hrt : ∀ r, r ∈ roots (Call.run s .clone).2 ↔
      r ∈ insert (vmmCloneKernelPml4 s.vmm).1 (roots s) := by
    intro r
    simp only [roots,Call.run,hne,if_false,Set.mem_ofPred_eq,Set.mem_insert_iff,List.mem_cons]
    tauto
  simp only [Call.run,hne,if_false] at hrt
  have hset := Set.ext hrt
  refine ⟨?_,?_,?_,?_,h.nodup⟩
  · rw [hset]
    exact hcl.tables
  · rw [hset]
    exact hcl.spaces
  · rw [hset]
    simp only [hcl.current]
    exact Set.mem_insert_of_mem _ h.current
  · intro f hf
    refine (h.held f hf).extend hcl.pmm ?_
    rw [hset]
    exact hcl.tree

lemma Sound.map (h : Sound s) (hfl : flags < 8) (hvr : labels virt ≠ labels kernelPml4Virt) :
    Sound (Call.run s (.map virt phys flags)).2 := by
  have hrt : rootFrame s.vmm ∈ roots s := by
    rw [h.masked]
    exact h.current
  rcases vmmMap_spec virt phys h.tables hrt hfl with ⟨-,hkp⟩ | ⟨-,hmp⟩
  · exact h.extend hkp.toExtended fun r hr => hkp.same r hr _
  · refine h.extend hmp.toExtended fun r hr => ?_
    rw [hmp.page r hr,if_neg fun hc => hvr hc.1.symm]

lemma Sound.unmap (h : Sound s)
    (hvr : labels virt ≠ labels kernelPml4Virt) : Sound (Call.run s (.unmap virt)).2 := by
  have hrt : rootFrame s.vmm ∈ roots s := by
    rw [h.masked]
    exact h.current
  have hun := vmmUnmap_spec virt h.tables hrt
  refine h.extend hun.toExtended fun r hr => ?_
  obtain ⟨pt,hpt⟩ := (h.spaces r hr).table
  exact hun.same r hr _ pt hpt hvr.symm

lemma Sound.allocator (h : Sound s) (hs : Sized p) (hout : Outside s.vmm.mem (roots s) f)
    (hfr : ∀ x, FreeFrame p x → x = f ∨ FreeFrame s.vmm.pmm x) {held : List ℕ}
    (hhl : ∀ x ∈ held, Outside s.vmm.mem (roots s) x ∧ ¬ FreeFrame p x ∧
      ∃ i < p.totalPages, x = frameAddr i) (hnd : held.Nodup) :
    Sound { s with
      vmm := { s.vmm with pmm := p }
      held := held } := by
  refine ⟨⟨hs,h.tables.unshared,h.tables.aligned,?_⟩,h.spaces,h.current,?_,hnd⟩
  · intro r hr q n hn hbad
    rcases hfr _ hbad with heq | hbad
    · exact hout r hr q n hn heq
    · exact h.tables.taken r hr q n hn hbad
  · intro x hx
    obtain ⟨hxt,hus,hmn⟩ := hhl x hx
    exact ⟨hus,hxt,hmn⟩

lemma Sound.alloc (h : Sound s) : Sound (Call.run s .alloc).2 := by
  have hs := h.tables.sized
  by_cases hzr : (allocPage s.vmm).1 = 0
  · have hfl : allocPage s.vmm = (0,s.vmm) := by
      rcases allocPage_spec hs with hfl | ⟨base,hbs,-⟩
      · exact hfl
      · exact (frameAddr_ne_zero base (hbs.symm.trans hzr)).elim
    simpa only [Call.run,hfl,if_true] using h
  obtain ⟨base,had,htk⟩ := allocPage_taken hs hzr
  have hp := Taken.shrunk htk hs
  have hout := h.tables.outside (Taken.free htk)
  simp only [Call.run,hzr,if_false]
  refine h.allocator hp.sized hout (fun x hx => .inr (hp.free x hx)) ?_ ?_
  · intro x hx
    rcases List.mem_cons.mp hx with rfl | hx
    · rw [had]
      refine ⟨hout,Taken.not_free htk,base,?_,rfl⟩
      rw [htk.total]
      exact htk.run.inside
    · have hx := h.held x hx
      refine ⟨hx.outside,fun hfr => hx.used (hp.free x hfr),?_⟩
      rw [htk.total]
      exact hx.managed
  · refine List.nodup_cons.mpr ⟨fun hbad => (h.held _ hbad).used ?_,h.nodup⟩
    rw [had]
    exact Taken.free htk

lemma Sound.free (h : Sound s) {addr : ℕ} (had : addr ∈ s.held) :
    Sound (Call.run s (.free addr)).2 := by
  have hs := h.tables.sized
  have hhl := h.held addr had
  obtain ⟨i,hi,rfl⟩ := hhl.managed
  have hfr : ∀ x, FreeFrame (pmmFree s.vmm.pmm (frameAddr i)) x →
      x = frameAddr i ∨ FreeFrame s.vmm.pmm x := by
    rw [pmmFree_frame hs hi]
    rintro x ⟨j,hj,rfl,hbit⟩
    by_cases hji : j = i
    · exact .inl (by rw [hji])
    · refine .inr ⟨j,hj,rfl,?_⟩
      simpa [hji] using hbit
  have htl : (pmmFree s.vmm.pmm (frameAddr i)).totalPages = s.vmm.pmm.totalPages := by
    rw [pmmFree_frame hs hi]
  have hsz : Sized (pmmFree s.vmm.pmm (frameAddr i)) := by
    rw [pmmFree_frame hs hi]
    exact ⟨hs.min,hs.max,hs.top⟩
  refine h.allocator hsz hhl.outside hfr ?_ (h.nodup.erase _)
  intro x hx
  have hx_ne : x ≠ frameAddr i := fun hbad => h.nodup.not_mem_erase (hbad ▸ hx)
  have hx := h.held x (List.mem_of_mem_erase hx)
  refine ⟨hx.outside,fun hbad => ?_,?_⟩
  · rcases hfr x hbad with heq | hbad
    · exact hx_ne heq
    · exact hx.used hbad
  · rw [htl]
    exact hx.managed

lemma Sound.switch (h : Sound s) {pml4Phys : ℕ} (hrt : pml4Phys ∈ roots s) :
    Sound (Call.run s (.switch pml4Phys)).2 :=
  ⟨h.tables,h.spaces,hrt,fun f hf =>
    ⟨(h.held f hf).used,(h.held f hf).outside,(h.held f hf).managed⟩,
    h.nodup⟩

lemma Sound.run (h : Sound s) {c : Call} {out : ℤ} (hok : Proper s (c,out)) :
    Sound (Call.run s c).2 := by
  cases c with
  | clone => exact h.clone
  | switch pml4Phys => exact h.switch hok
  | map virt phys flags => exact h.map hok.1 hok.2
  | unmap virt => exact h.unmap hok
  | alloc => exact h.alloc
  | free addr => exact h.free hok

lemma reach_sound (h : Reach kernelRuns s) : Sound s := by
  refine h.invariant Sound (fun _ hs => Sound.boot hs) ?_
  rintro s ⟨c,out⟩ t hs ⟨hrun,hok⟩
  have ht : t = (Call.run s c).2 := by rw [hrun]
  subst ht
  exact hs.run hok

/-- A held frame is written. -/
def Kernel.store (s : Kernel) (f : ℕ) (words : ℕ → ℕ) : Kernel :=
  { s with vmm := { s.vmm with mem := Function.update s.vmm.mem f words } }

lemma Sound.store (h : Sound s) (hf : f ∈ s.held) (words : ℕ → ℕ) : Sound (s.store f words) := by
  have hkp : Kept s.vmm { s.vmm with mem := Function.update s.vmm.mem f words } (roots s) :=
    kept_frame h.tables (h.held f hf).outside (fun g hg => Function.update_of_ne hg _ _)
      (Shrunk.refl h.tables.sized) ⟨rfl,rfl⟩
  exact h.extend hkp.toExtended fun r hr => hkp.same r hr _

/-- What all calls of proper callers keep, and all stores into frames they hold. -/
structure Stable (I : Kernel → Prop) : Prop where
  sound : ∀ s, I s → Sound s
  call : ∀ s c, I s → Proper s (c,0) → I (Call.run s c).2
  store : ∀ s f words, I s → f ∈ s.held → I (s.store f words)

lemma stable_sound : Stable Sound :=
  ⟨fun _ h => h,fun _ _ h hok => h.run hok,fun _ _ words h hf => h.store hf words⟩

/-- The page of `virt` can be mapped only in a new page table. -/
def NeedsTable (s : Vmm) (virt : ℕ) : Prop :=
  s.mem 0x22000 (pdIdx virt) &&& vmmPresent = 0 ∨ s.mem 0x22000 (pdIdx virt) &&& vmmHuge ≠ 0

lemma mapInPd_fails_iff {s : Vmm} {pd : ℕ} :
    (mapInPd s pd virt phys flags).1 = -1 ↔
    (readPtEntry s pd (pdIdx virt) &&& vmmPresent = 0 ∨
        readPtEntry s pd (pdIdx virt) &&& vmmHuge ≠ 0) ∧ (allocPage s).1 = 0 := by
  simp only [mapInPd]
  by_cases hpr : readPtEntry s pd (pdIdx virt) &&& vmmPresent = 0
  · by_cases hzr : (allocPage s).1 = 0
    · simp [hpr,hzr]
    · simp [hpr,hzr,mapInPt]
  · by_cases hhg : readPtEntry s pd (pdIdx virt) &&& vmmHuge = 0
    · simp [hpr,hhg,mapInPt]
    · by_cases hzr : (allocPage s).1 = 0 <;> simp [hpr,hhg,hzr]

lemma translate_page {roots : Set ℕ} {v w x : ℕ} (htab : Tables mem p roots) (hr : r ∈ roots)
    (hlb : labels v = labels w) (hw : physAddr mem r w = some x) :
    physAddr mem r v = some ((x &&& frameMask) ||| (v &&& 0xFFF)) := by
  have hpt : ptIdx v = ptIdx w := by
    simp only [labels,List.cons.injEq] at hlb
    exact hlb.2.2.2.1
  rw [physAddr] at hw ⊢
  rw [hlb]
  obtain ⟨leaf,hlf,hx⟩ := Option.bind_eq_some_iff.mp hw
  rw [hlf,Option.bind_some]
  cases leaf with
  | none => cases hx
  | some leaf =>
    obtain ⟨base,mask⟩ := leaf
    cases hx
    obtain ⟨q,i,rest,n,-,hn,hst⟩ := follow_some hlf
    have hof : w &&& 0xFFF < 4096 := lt_of_le_of_lt Nat.and_le_right (by decide)
    simp only [Leaf.at,Option.map_some,Option.some.injEq]
    rcases entryStep_leaf hst with ⟨-,hlf⟩ | ⟨-,hlf⟩ <;>
      cases hlf
    · have hal := htab.aligned r hr q n i _ hn hst
      rw [← split_offset hal v,← split_offset hal w,hpt,
        entry_frame (split_frame (and_frameMask_and _) hal (ptIdx_lt w)) hof]
    · rw [entry_frame (and_frameMask_and _) hof]

section User

variable {s : Kernel} {virt : ℕ}

lemma user_indices (hlow : userAddrStart ≤ virt) (hhg : virt < userAddrEnd) :
    pml4Idx virt = 0 ∧ pdptIdx virt = 0 := by
  have hend : userAddrEnd = 0x800000 := rfl
  rw [pml4Idx,pdptIdx,index_eq,index_eq]
  omega

lemma Low.entries (h : Low mem r) :
    (mem r 0 &&& vmmPresent ≠ 0 ∧ mem r 0 &&& frameMask = 0x21000) ∧
    mem 0x21000 0 &&& vmmPresent ≠ 0 ∧ mem 0x21000 0 &&& frameMask = 0x22000 := by
  have hpp : descend (next mem) (0,r) ([] ++ [0]) = some (1,0x21000) := h.pdpt
  have hpd : descend (next mem) (0,r) ([0] ++ [0]) = some (2,0x22000) := h.pd
  obtain ⟨k,hk,hgo⟩ := descend_snoc.mp hpp
  cases hk
  obtain ⟨k,hk,hgo'⟩ := descend_snoc.mp hpd
  rw [h.pdpt] at hk
  cases hk
  obtain ⟨hpr,-,-,hfr⟩ := entryStep_go_iff.mp hgo
  obtain ⟨hpr',-,-,hfr'⟩ := entryStep_go_iff.mp hgo'
  exact ⟨⟨hpr,(congrArg Prod.snd hfr).symm⟩,hpr',(congrArg Prod.snd hfr').symm⟩

lemma Sound.map_fails_iff (h : Sound s) (hlow : userAddrStart ≤ virt)
    (hhg : virt < userAddrEnd) (phys flags : ℕ) :
    (vmmMap s.vmm virt phys flags).1 = -1 ↔ NeedsTable s.vmm virt ∧ Exhausted s.vmm.pmm := by
  have hsp := h.spaces _ h.current
  obtain ⟨⟨hpr₀,hfr₀⟩,hpr₁,hfr₁⟩ := hsp.low.entries
  obtain ⟨hidx₀,hidx₁⟩ := user_indices hlow hhg
  have hsl : descend (next s.vmm.mem) (0,s.vmm.currentPml4Phys) [] =
      some (0,s.vmm.currentPml4Phys) := rfl
  have hne₁ : (0x21000 : ℕ) ≠ s.vmm.currentPml4Phys := by
    intro hbad
    have hnd := h.tables.node_eq h.current h.current hsp.low.pdpt hsl hbad
    simp at hnd
  have hne₂ : (0x22000 : ℕ) ≠ s.vmm.currentPml4Phys := by
    intro hbad
    have hnd := h.tables.node_eq h.current h.current hsp.low.pd hsl hbad
    simp at hnd
  have hrn : ¬ (flags &&& vmmUser ≠ 0 ∧ (virt < userAddrStart ∨ userAddrEnd ≤ virt)) := by
    omega
  have hms₂ : 0x22000 &&& frameMask = 0x22000 := by decide
  have hnx : ∀ v, setWord s.vmm.mem s.vmm.currentPml4Phys 0 v 0x21000 0 = s.vmm.mem 0x21000 0 :=
    fun v => setWord_other _ _ (.inl hne₁)
  have hen : ∀ v w, setWord (setWord s.vmm.mem s.vmm.currentPml4Phys 0 v) 0x21000 0 w 0x22000 =
      s.vmm.mem 0x22000 :=
        fun v w => (setWord_frame _ _ _ (by decide)).trans (setWord_frame _ _ _ hne₂)
  rw [vmmMap,if_neg hrn,hidx₀,hidx₁,getOrAllocTable_present flags h.masked hpr₀,hfr₀]
  dsimp only
  rw [getOrAllocTable_present (f := 0x21000) flags (by decide) (by simpa only [hnx] using hpr₁)]
  simp only [hnx,hfr₁,OfNat.ofNat_ne_zero,if_false]
  rw [mapInPd_fails_iff]
  simp only [readPtEntry,hms₂,hen,allocPage,pmmAlloc_eq_zero_iff h.tables.sized]
  rfl

/-- All address spaces see the same memory in the user range. -/
theorem Sound.user_same (h : Sound s) (hlow : userAddrStart ≤ virt) (hhg : virt < userAddrEnd)
    {A : ℕ} (hA : A ∈ roots s) (hB : B ∈ roots s) :
    physAddr s.vmm.mem A virt = physAddr s.vmm.mem B virt := by
  obtain ⟨hidx₀,hidx₁⟩ := user_indices hlow hhg
  have hlb : labels virt = [0,0] ++ [pdIdx virt,ptIdx virt] := by
    rw [labels,hidx₀,hidx₁]
    rfl
  rw [physAddr,physAddr,hlb,follow_append (h.spaces A hA).low.pd,
    follow_append (h.spaces B hB).low.pd]

lemma Sound.map_shared (h : Sound s) (hlow : userAddrStart ≤ virt) (hhg : virt < userAddrEnd)
    (hfg : flags < 8) (hB : B ∈ roots s) (hrc : (vmmMap s.vmm virt phys flags).1 ≠ -1) (v : ℕ) :
    physAddr (vmmMap s.vmm virt phys flags).2.mem B v =
      if labels v = labels virt then some ((phys &&& frameMask) ||| (v &&& 0xFFF))
      else physAddr s.vmm.mem B v := by
  have hrt : rootFrame s.vmm ∈ roots s := by
    rw [h.masked]
    exact h.current
  rcases vmmMap_spec virt phys h.tables hrt hfg with ⟨hfl,-⟩ | ⟨-,hmp⟩
  · exact (hrc hfl).elim
  obtain ⟨hidx₀,hidx₁⟩ := user_indices hlow hhg
  have hpt : tablePath virt = [0,0] ++ [pdIdx virt] := by
    rw [tablePath,hidx₀,hidx₁]
    rfl
  have hsm : ∀ r ∈ roots s,
      descend (next (vmmMap s.vmm virt phys flags).2.mem) (0,r) (tablePath virt) =
        descend (next (vmmMap s.vmm virt phys flags).2.mem) (2,0x22000) [pdIdx virt] := by
    intro r hr
    have hpd := ((h.spaces r hr).low.extend hr hmp.toExtended).pd
    rw [hpt,descend_append,hpd,Option.bind_some]
  rw [hmp.page B hB,hsm B hB,hsm _ hrt]
  simp

end User

/-- Mapping a user page in one address space leaves another alone exactly if the page is
mapped so already or cannot be mapped. -/
theorem user_map_isolated_iff (s : Kernel) (hs : Reach kernelRuns s) (B virt phys : ℕ)
    (hA : s.vmm.currentPml4Phys ∈ s.clones) (hB : B ∈ s.clones) (hlow : userAddrStart ≤ virt)
    (hhigh : virt < userAddrEnd) :
    (∀ v, userAddrStart ≤ v → v < userAddrEnd →
      physAddr (vmmMap s.vmm virt phys (vmmPresent ||| vmmWritable ||| vmmUser)).2.mem B v =
        physAddr s.vmm.mem B v) ↔
    physAddr s.vmm.mem s.vmm.currentPml4Phys virt =
        some ((phys &&& frameMask) ||| (virt &&& 0xFFF)) ∨
      NeedsTable s.vmm virt ∧ Exhausted s.vmm.pmm := by
  have hsn := reach_sound hs
  have hA_root : s.vmm.currentPml4Phys ∈ roots s := .inr hA
  have hB_root : B ∈ roots s := .inr hB
  have hfg : vmmPresent ||| vmmWritable ||| vmmUser < 8 := by decide
  have hsm := hsn.user_same hlow hhigh hA_root hB_root
  by_cases hrc : (vmmMap s.vmm virt phys (vmmPresent ||| vmmWritable ||| vmmUser)).1 = -1
  · have hfl := (hsn.map_fails_iff hlow hhigh phys _).mp hrc
    refine ⟨fun _ => .inr hfl,fun _ v _ _ => ?_⟩
    have hrt : rootFrame s.vmm ∈ roots s := by
      rw [hsn.masked]
      exact hsn.current
    rcases vmmMap_spec virt phys hsn.tables hrt hfg with ⟨-,hkp⟩ | ⟨hdn,-⟩
    · exact hkp.same B hB_root v
    · rw [hdn] at hrc
      cases hrc
  · have hsh := hsn.map_shared hlow hhigh hfg hB_root hrc
    constructor
    · intro hall
      have hvr := hall virt hlow hhigh
      rw [hsh,if_pos rfl] at hvr
      exact .inl (hsm.trans hvr.symm)
    · rintro (hmp | hfl) v - -
      · rw [hsh]
        split
        · rename_i hlb
          have hof : virt &&& 0xFFF < 4096 := lt_of_le_of_lt Nat.and_le_right (by decide)
          rw [translate_page hsn.tables hB_root hlb (hsm.symm.trans hmp),
            entry_frame (and_frameMask_and phys) hof]
        · rfl
      · exact (hrc ((hsn.map_fails_iff hlow hhigh phys _).mpr hfl)).elim

lemma clone_reach (hs : Reach kernelRuns s) (h : ∀ k < 4, (pmmAlloc (after k s.vmm.pmm)).1 ≠ 0) :
    ∃ t, Reach kernelRuns t ∧ t.clones = (pmmAlloc s.vmm.pmm).1 :: s.clones ∧
    t.vmm.pmm = after 4 s.vmm.pmm ∧ t.vmm.mem 0x22000 = s.vmm.mem 0x22000 := by
  obtain ⟨hnew,hpmm⟩ := clone_some h
  have hzr : (pmmAlloc s.vmm.pmm).1 ≠ 0 := h 0 (by decide)
  have hsn := reach_sound hs
  obtain ⟨l,htr⟩ := hs
  have hst : kernelRuns.step s (.clone,(Call.run s .clone).1) (Call.run s .clone).2 :=
    ⟨rfl,trivial⟩
  refine ⟨_,(htr.next hst).reach,?_,hpmm,?_⟩
  · simp [Call.run,hnew,hzr]
  · rcases vmmCloneKernelPml4_spec hsn.tables hsn.spaces hsn.current with hfl | hcl
    · exact (hzr (hnew.symm.trans hfl.1)).elim
    · exact hcl.words _ (low_not_free (by decide))

lemma two_spaces : ∃ s, Reach kernelRuns s ∧ s.clones = [0x30B000,0x307000] ∧
    s.vmm.currentPml4Phys = 0x307000 ∧ s.vmm.mem 0x22000 = bootPd ∧ ¬ Exhausted s.vmm.pmm := by
  have hfr : ∀ k < 16, (pmmAlloc (after k freshPmm)).1 ≠ 0 := by
    intro k hk
    rw [freshPmm_alloc k hk]
    exact frameAddr_ne_zero k
  obtain ⟨v,hin,hpmm⟩ := fresh_boot
  have hbt : Booted ⟨v,[],[]⟩ := ⟨rfl,rfl,fun _ _ => 0,_,_,hin⟩
  obtain ⟨-,-,-,hpd,-⟩ := vmmInit_spec (pmmInit_sized _ _) hin
  have hst : Reach kernelRuns ⟨v,[],[]⟩ := (Trace.start hbt).reach
  have hfr₁ : ∀ k < 4, (pmmAlloc (after k v.pmm)).1 ≠ 0 := by
    intro k hk
    rw [hpmm,after_add]
    exact hfr _ (by omega)
  obtain ⟨s₁,hs₁,hcl₁,hpmm₁,hmem₁⟩ := clone_reach hst hfr₁
  replace hpmm₁ : s₁.vmm.pmm = after 11 freshPmm := by
    rw [hpmm₁,hpmm,after_add]
  have hfr₂ : ∀ k < 4, (pmmAlloc (after k s₁.vmm.pmm)).1 ≠ 0 := by
    intro k hk
    rw [hpmm₁,after_add]
    exact hfr _ (by omega)
  obtain ⟨s₂,hs₂,hcl₂,hpmm₂,hmem₂⟩ := clone_reach hs₁ hfr₂
  replace hpmm₂ : s₂.vmm.pmm = after 15 freshPmm := by
    rw [hpmm₂,hpmm₁,after_add]
  have hcl : s₂.clones = [0x30B000,0x307000] := by
    rw [hcl₂,hcl₁,hpmm₁,hpmm,freshPmm_alloc _ (by decide),freshPmm_alloc _ (by decide)]
    rfl
  have hsz := (reach_sound hs₂).tables.sized
  obtain ⟨l,htr⟩ := hs₂
  have hsp : kernelRuns.step s₂ (.switch 0x307000,0) (Call.run s₂ (.switch 0x307000)).2 :=
    ⟨rfl,.inr (by simp [hcl])⟩
  refine ⟨_,(htr.next hsp).reach,hcl,rfl,hmem₂.trans (hmem₁.trans hpd),?_⟩
  intro hbad
  have hzr := (pmmAlloc_eq_zero_iff hsz).mpr hbad
  rw [hpmm₂] at hzr
  exact hfr 15 (by decide) hzr

/-- In that state the user range of either space can be mapped. -/
theorem user_map_isolated_iff_two_spaces :
    ∃ s, Reach kernelRuns s ∧ s.vmm.currentPml4Phys ∈ s.clones ∧ 0x30B000 ∈ s.clones ∧
      ((∀ v, userAddrStart ≤ v → v < userAddrEnd →
          physAddr (vmmMap s.vmm 0x400000 0x900000 (vmmPresent ||| vmmWritable ||| vmmUser)).2.mem
            0x30B000 v = physAddr s.vmm.mem 0x30B000 v) ↔
        physAddr s.vmm.mem s.vmm.currentPml4Phys 0x400000 =
            some ((0x900000 &&& frameMask) ||| (0x400000 &&& 0xFFF)) ∨
          NeedsTable s.vmm 0x400000 ∧ Exhausted s.vmm.pmm) := by
  obtain ⟨s,hs,hcl,hcr,-,-⟩ := two_spaces
  have hA : s.vmm.currentPml4Phys ∈ s.clones := by
    rw [hcr,hcl]
    decide
  have hB : 0x30B000 ∈ s.clones := by
    rw [hcl]
    decide
  exact ⟨s,hs,hA,hB,user_map_isolated_iff s hs 0x30B000 0x400000 0x900000 hA hB (by decide)
    (by decide)⟩

/-- A page mapped at 4 MiB in the first address space appears in the second. -/
theorem user_page_seen_in_other_space : ¬ ∀ s, Reach kernelRuns s → ∀ A ∈ s.clones,
    ∀ B ∈ s.clones, A ≠ B → s.vmm.currentPml4Phys = A → ∀ virt phys, userAddrStart ≤ virt →
      virt < userAddrEnd → ∀ v, userAddrStart ≤ v → v < userAddrEnd →
        physAddr (vmmMap s.vmm virt phys (vmmPresent ||| vmmWritable ||| vmmUser)).2.mem B v =
          physAddr s.vmm.mem B v := by
  intro hall
  obtain ⟨s,hs,hcl,hcr,hpd,hfr⟩ := two_spaces
  have hsn := reach_sound hs
  have hA : 0x307000 ∈ s.clones := by
    rw [hcl]
    decide
  have hB : 0x30B000 ∈ s.clones := by
    rw [hcl]
    decide
  have hsm := hall s hs _ hA _ hB (by decide) hcr 0x400000 0x900000 (by decide) (by decide)
    0x400000 (by decide) (by decide)
  have hrc : (vmmMap s.vmm 0x400000 0x900000 (vmmPresent ||| vmmWritable ||| vmmUser)).1 ≠ -1 := by
    intro hfl
    have hnd := (hsn.map_fails_iff (by decide) (by decide) _ _).mp hfl
    exact hfr hnd.2
  rw [hsn.map_shared (by decide) (by decide) (by decide) (.inr hB) hrc,if_pos rfl] at hsm
  have hlb : labels 0x400000 = [0,0] ++ [2,0] := by decide
  have hen : entryStep 2 (bootPd 2) = .stop (some (0x400000,0x1FFFFF)) := rfl
  rw [physAddr,hlb,follow_append (hsn.spaces _ (.inr hB)).low.pd] at hsm
  simp only [follow,next,hpd,hen,Option.bind_some,Leaf.at,Option.map_some,Option.some.injEq]
    at hsm
  revert hsm
  decide

end HarlinKernel.AddressSpace
