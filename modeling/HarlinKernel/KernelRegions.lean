import HarlinKernel.KmallocSafety
import HarlinKernel.PagedCreation
import HarlinKernel.ProcessCreation

/-! The kernel heap and the kernel stacks in one address range: the heap grows upwards from
`KERNEL_HEAP_START` without a limit, the stacks lie 16 MiB above. -/
namespace HarlinKernel.KernelRegions

open PageAllocator LabelledWalk PageTable TransitionSystem Kmalloc ProcessTable

/-- The heap and the process table, which share the page tables. -/
structure Machine where
  run : HeapRun
  kernel : ProcessTable.Kernel

inductive Call
  | kmalloc (size : ℕ)
  | create (rip rsp : ℕ)
  | createElf (image : ElfImage)

def Machine.withKernel (s : Machine) (k : ProcessTable.Kernel) : Machine where
  run := { s.run with heap := { s.run.heap with vmm := k.vmm } }
  kernel := k

def act (s : Machine) : Call → Option Machine
  | .kmalloc size => (kmalloc s.run.heap size).map fun r =>
      ⟨afterKmalloc s.run r,{ s.kernel with vmm := r.2.vmm }⟩
  | .create rip rsp => some (s.withKernel (processCreate s.kernel rip rsp).2)
  | .createElf image => some (s.withKernel (processCreateElf s.kernel image).2)

/-- The machine after `vmm_init`, `kmalloc_init` and `scheduler_init`. -/
def Initialised (s : Machine) : Prop :=
  ∃ mem p bssEnd k h, AddressSpace.vmmInit (AddressSpace.bootState mem (pmmInit p bssEnd))
      AddressSpace.bootPml4 = some h.vmm ∧ k.vmm = h.vmm ∧
    s = ⟨⟨kmallocInit h,[],[]⟩,schedulerInit k⟩

/-- Requests are at most `KMALLOC_MAX_SIZE` bytes, and there is memory for them. -/
def Supplied (s : Machine) : Call → Prop
  | .kmalloc size => size ≤ kmallocMaxSize ∧
    ∀ r, kmalloc s.run.heap size = some r → size ≠ 0 → r.1 ≠ 0
  | _ => True

def machineRuns : System Machine Call := (actions Initialised act).guarded Supplied

/-- The address lies in the slot of a kernel stack. -/
def InSlot (i v : ℕ) : Prop := stackBaseOf i ≤ v ∧ v < stackBaseOf i+kernelStackSize

instance (i v : ℕ) : Decidable (InSlot i v) := inferInstanceAs (Decidable (_ ∧ _))

/-- No page that `create_block` handed to the heap lies in the slot of a kernel stack. -/
def Apart (s : Machine) : Prop :=
  ∀ b e, (b,e) ∈ s.run.regions → ∀ v, b ≤ v → v < e → ∀ i < maxProcesses, ¬ InSlot i v

/-- The stacks are translated as before, in the first address space and in those of the
processes. -/
def StacksKept (s t : Machine) : Prop :=
  ∀ i < maxProcesses, ∀ v, InSlot i v → ∀ r, (r = AddressSpace.bootPml4 ∨ ∃ j < maxProcesses,
      (s.kernel.processes j).state ≠ .none ∧ (s.kernel.processes j).pml4Phys = r) →
    physAddr t.kernel.vmm.mem r v = physAddr s.kernel.vmm.mem r v

/-- A new region ends below the stacks. -/
def BelowStacks (s : Machine) : Call → Prop
  | .kmalloc size => Grows s.run.heap size →
    s.run.heap.nextHeapVirt+regionTotal size ≤ kernelStackBase
  | _ => True

structure Sound (s : Machine) : Prop where
  shared : s.run.heap.vmm = s.kernel.vmm
  heap : ∃ bs, Kmalloc.Sound s.run bs
  spaces : ∃ clones, Paged s.kernel clones [] ∧ ∀ i < maxProcesses,
    (s.kernel.processes i).state ≠ .none → (s.kernel.processes i).pml4Phys ∈ clones
  below : s.run.heap.nextHeapVirt ≤ kernelStackBase

variable {s t : Machine} {size : ℕ}

lemma bounds_le {rs : List Region} {top b e : ℕ} (h : Stacked rs top)
    (hmem : (b,e) ∈ bounds rs top) : e ≤ top := by
  induction rs generalizing top with
  | nil => cases hmem
  | cons r rs ih =>
    obtain ⟨hld,-,-,-,hrs⟩ := h
    rcases List.mem_cons.mp hmem with heq | hmem
    · cases heq
      exact le_rfl
    · exact (ih hrs hmem).trans hld.le

lemma Sound.region_le (h : Sound s) {b e : ℕ} (hmem : (b,e) ∈ s.run.regions) :
    e ≤ s.run.heap.nextHeapVirt := by
  obtain ⟨bs,hbs⟩ := h.heap
  obtain ⟨rs,hst,-,hbn⟩ := hbs.tiled.stacked
  exact bounds_le hst (hbn ▸ hmem)

lemma InSlot.base_le {i v : ℕ} (h : InSlot i v) : kernelStackBase ≤ v := by
  obtain ⟨hlow,-⟩ := h
  rw [stackBaseOf] at hlow
  omega

lemma Sound.apart (h : Sound s) : Apart s := by
  intro b e hmem v _ hv i _ hsl
  have hend := h.region_le hmem
  have hbl := h.below
  have hbs := hsl.base_le
  omega

section Growing

variable {v : Vmm} {clones held : List ℕ} {run : HeapRun} {bs : List Block}

lemma map_other (h : AddressSpace.Sound ⟨v,clones,held⟩) {virt w r flags : ℕ} (phys : ℕ)
    (hfl : flags < 8) (hr : r = AddressSpace.bootPml4 ∨ r ∈ clones) (hw : labels w ≠ labels virt) :
    physAddr (vmmMap v virt phys flags).2.mem r w = physAddr v.mem r w := by
  have hrt : rootFrame v ∈ AddressSpace.roots ⟨v,clones,held⟩ := by
    have hms := h.masked
    rw [hms]
    exact h.current
  rcases vmmMap_spec virt phys h.tables hrt hfl with ⟨-,hkp⟩ | ⟨-,hmp⟩
  · exact hkp.same r hr w
  · exact (hmp.page r hr w).trans (if_neg fun hc => hw hc.1)

lemma mapPagesFrom_sound {virt i n : ℕ} (h : AddressSpace.Sound ⟨v,clones,held⟩)
    (hrc : (mapPagesFrom v virt i n).1 = 0)
    (hlb : ∀ k, i ≤ k → k < i+n →
      labels ((virt+k*4096) % 2^64) ≠ labels AddressSpace.kernelPml4Virt) :
    (∃ held', AddressSpace.Sound ⟨(mapPagesFrom v virt i n).2,clones,held'⟩) ∧
    ∀ r, (r = AddressSpace.bootPml4 ∨ r ∈ clones) →
      ∀ w, (∀ k, i ≤ k → k < i+n → labels w ≠ labels ((virt+k*4096) % 2^64)) →
        physAddr (mapPagesFrom v virt i n).2.mem r w = physAddr v.mem r w := by
  induction n generalizing v held i with
  | zero => exact ⟨⟨held,h⟩,fun _ _ _ _ => rfl⟩
  | succ n ih =>
    rw [mapPagesFrom_succ] at hrc ⊢
    by_cases hzr : (allocPage v).1 = 0
    · simp only [hzr,if_true] at hrc
      cases hrc
    simp only [hzr,if_false] at hrc ⊢
    have hal := h.alloc
    simp only [AddressSpace.Call.run,hzr,if_false] at hal
    have hmap : AddressSpace.Sound ⟨(vmmMap (allocPage v).2 ((virt+i*4096) % 2^64)
        (allocPage v).1 (vmmPresent ||| vmmWritable)).2,clones,(allocPage v).1 :: held⟩ :=
      hal.map (by decide : vmmPresent ||| vmmWritable < 8) (hlb i le_rfl (by omega))
    obtain ⟨hsn,hsm⟩ := ih hmap hrc fun k hk hk' => hlb k (by omega) (by omega)
    refine ⟨hsn,?_⟩
    intro r hr w hw
    rw [hsm r hr w fun k hk hk' => hw k (by omega) (by omega)]
    exact map_other hal _ (by decide) hr (hw i le_rfl (by omega))

lemma kmalloc_cases {r : ℕ × Heap Vmm} (hs : Kmalloc.Sound run bs) (hsz : size ≤ kmallocMaxSize)
    (hr : kmalloc run.heap size = some r) (hne : size ≠ 0 → r.1 ≠ 0) :
    (¬ Grows run.heap size ∧ r.2.vmm = run.heap.vmm ∧ r.2.nextHeapVirt = run.heap.nextHeapVirt) ∨
    (Grows run.heap size ∧ (mapPages run.heap.vmm run.heap.nextHeapVirt (regionTotal size)).1 = 0 ∧
      r.2.vmm = (mapPages run.heap.vmm run.heap.nextHeapVirt (regionTotal size)).2 ∧
      r.2.nextHeapVirt = run.heap.nextHeapVirt+regionTotal size) := by
  rw [kmalloc] at hr
  by_cases hzr : size = 0
  · rw [if_pos (.inl hzr)] at hr
    cases hr
    exact .inl ⟨fun hgr => hgr.1 hzr,rfl,rfl⟩
  rw [if_neg (by omega)] at hr
  split at hr
  · cases hr
  · rename_i hfn
    cases hr
    obtain ⟨v,hv,-,⟨-,heq,-⟩ | ⟨hrc,heq,-⟩⟩ := growHeap_cases hsz hs.start_le hs.sized hs.frames
    · exact absurd (by rw [heq]) (hne hzr)
    · refine .inr ⟨⟨hzr,hfn⟩,hrc,?_⟩
      have hst := pushed_state { run.heap with
        vmm := v
        nextHeapVirt := run.heap.nextHeapVirt+regionTotal size } run.heap.nextHeapVirt
          (regionTotal size)
      rw [heq]
      exact ⟨hst.1.trans hv,hst.2⟩
  · rename_i block hnz hfn
    cases hr
    have hsm := (sameState_splitBlock run.heap block size).setField (a:=block) (f:=.used) (v:=1)
    refine .inl ⟨fun hgr => ?_,hsm.vmm,hsm.next⟩
    exact hnz (Option.some.inj (hfn.symm.trans hgr.2))

end Growing

lemma heap_labels {page : ℕ} (hlow : kernelHeapStart ≤ page) (hhg : page < kernelStackBase) :
    labels page ≠ labels AddressSpace.kernelPml4Virt ∧
      ∀ i < maxProcesses, ∀ v, InSlot i v → labels v ≠ labels page := by
  rw [kernelHeapStart] at hlow
  rw [kernelStackBase] at hhg
  refine ⟨?_,?_⟩
  · rw [Ne,labels_eq_iff,AddressSpace.kernelPml4Virt]
    omega
  intro i hi v hv
  obtain ⟨hbs,hend⟩ := hv
  rw [stackBaseOf,kernelStackBase,kernelStackSize] at hbs hend
  rw [maxProcesses] at hi
  have hst : 0xFFFF800001000000 ≤ v ∧ v < 0xFFFF800001050000 := by omega
  clear hbs hend
  rw [Ne,labels_eq_iff]
  omega

lemma Sound.kmalloc_step (h : Sound s) (hsp : act s (.kmalloc size) = some t)
    (hsu : Supplied s (.kmalloc size)) (hbl : BelowStacks s (.kmalloc size)) :
    Sound t ∧ StacksKept s t := by
  obtain ⟨r,hr,rfl⟩ := Option.map_eq_some_iff.mp hsp
  obtain ⟨hsz,hne⟩ := hsu
  obtain ⟨bs,hbs⟩ := h.heap
  obtain ⟨r',hr',bs',hbs',-⟩ := hbs.kmalloc size
  rw [hr] at hr'
  cases hr'
  obtain ⟨clones,⟨held,hsn,-⟩,hlv⟩ := h.spaces
  rcases kmalloc_cases hbs hsz hr (hne r hr) with ⟨-,hvmm,hnx⟩ | ⟨hgr,hrc,hvmm,hnx⟩
  · have hsm : r.2.vmm = s.kernel.vmm := hvmm.trans h.shared
    refine ⟨⟨rfl,⟨bs',hbs'⟩,⟨clones,⟨held,?_,by simp⟩,hlv⟩,?_⟩,?_⟩
    · rw [hsm]
      exact hsn
    · exact hnx.symm ▸ h.below
    · intro i _ v _ r _
      rw [hsm]
  · have htop := hbl hgr
    have hsr := hbs.start_le
    have hba : kernelStackBase = 0xFFFF800001000000 := rfl
    rw [h.shared] at hrc hvmm
    have hpage : ∀ k, 0 ≤ k → k < 0+(regionTotal size+4095) / 4096 →
        kernelHeapStart ≤ (s.run.heap.nextHeapVirt+k*4096) % 2^64 ∧
          (s.run.heap.nextHeapVirt+k*4096) % 2^64 < kernelStackBase := by
      obtain ⟨hpg,-,-⟩ := regionTotal_spec hsz
      intro k _ hk
      omega
    obtain ⟨⟨held',hsn'⟩,hkp⟩ := mapPagesFrom_sound hsn hrc fun k hk hk' =>
      (heap_labels (hpage k hk hk').1 (hpage k hk hk').2).1
    refine ⟨⟨rfl,⟨bs',hbs'⟩,⟨clones,⟨held',?_,by simp⟩,hlv⟩,?_⟩,?_⟩
    · rw [hvmm]
      exact hsn'
    · exact hnx.symm ▸ htop
    · intro i hi v hv r hr
      rw [hvmm]
      refine hkp r (hr.imp_right ?_) v fun k hk hk' =>
        (heap_labels (hpage k hk hk').1 (hpage k hk hk').2).2 i hi v hv
      rintro ⟨j,hj,hst,rfl⟩
      exact hlv j hj hst

lemma Sound.created (h : Sound s) {k : ProcessTable.Kernel} {slot : ℕ}
    (htk : Took s.kernel k slot)
    (hgr : ∀ clones, Paged s.kernel clones [] → Grown k clones slot) :
    Sound (s.withKernel k) := by
  obtain ⟨bs,hbs⟩ := h.heap
  obtain ⟨clones,hpg,hlv⟩ := h.spaces
  obtain ⟨clones',hpg',hsub,hsl⟩ := hgr clones hpg
  refine ⟨rfl,⟨bs,?_⟩,⟨clones',hpg',?_⟩,h.below⟩
  · have hta := Shrunk.takenFrames_le htk.pmm
    have hfr := hbs.frames
    rw [h.shared] at hfr
    refine ⟨⟨hbs.tiled.listed,hbs.tiled.head,hbs.tiled.stacked⟩,hbs.live,htk.pmm.sized,?_⟩
    exact hfr.trans (by simp only [Machine.withKernel]; omega)
  intro i hi hst
  by_cases heq : i = slot
  · subst heq
    exact hsl hst
  · have hsm := htk.others i heq
    simp only [Machine.withKernel] at hst ⊢
    rw [hsm] at hst ⊢
    exact hsub _ (hlv i hi hst)

lemma Sound.withKernel_self (h : Sound s) : Sound (s.withKernel s.kernel) := by
  rw [Machine.withKernel,← h.shared]
  exact h

lemma Sound.sized (h : Sound s) : Sized s.kernel.vmm.pmm := by
  obtain ⟨bs,hbs⟩ := h.heap
  rw [← h.shared]
  exact hbs.sized

lemma Sound.create (h : Sound s) (rip rsp : ℕ) :
    Sound (s.withKernel (processCreate s.kernel rip rsp).2) := by
  cases hsl : findSlot s.kernel.processes with
  | none =>
    rw [processCreate,hsl]
    exact h.withKernel_self
  | some slot =>
    exact h.created (processCreate_outcome h.sized hsl rip rsp).took
      fun clones hpg => hpg.processCreate hsl rip rsp

lemma Sound.createElf (h : Sound s) (image : ElfImage) :
    Sound (s.withKernel (processCreateElf s.kernel image).2) := by
  by_cases him : image.accepted = false ∨ image.entry < elfUserLoadBase
  · rw [processCreateElf,if_pos him]
    exact h.withKernel_self
  cases hsl : findSlot s.kernel.processes with
  | none =>
    rw [processCreateElf,if_neg him,hsl]
    exact h.withKernel_self
  | some slot =>
    exact h.created (processCreateElf_outcome h.sized him hsl).took
      fun clones hpg => hpg.processCreateElf him hsl

lemma Sound.step {c : Call} (h : Sound s) (hst : act s c = some t) (hsp : Supplied s c)
    (hbl : BelowStacks s c) : Sound t := by
  cases c with
  | kmalloc size => exact (h.kmalloc_step hst hsp hbl).1
  | create rip rsp =>
    cases hst
    exact h.create rip rsp
  | createElf image =>
    cases hst
    exact h.createElf image

lemma Sound.initialised (h : Initialised s) : Sound s := by
  obtain ⟨mem,p,bssEnd,k,heap,hin,hk,rfl⟩ := h
  have hbt : AddressSpace.Sound ⟨heap.vmm,[],[]⟩ :=
    AddressSpace.Sound.boot ⟨rfl,rfl,mem,p,bssEnd,hin⟩
  refine ⟨hk.symm,⟨[],Kmalloc.Sound.initialised ⟨heap,rfl,hbt.tables.sized⟩⟩,
    ⟨[],⟨[],?_,by simp⟩,?_⟩,?_⟩
  · change AddressSpace.Sound ⟨k.vmm,[],[]⟩
    rw [hk]
    exact hbt
  · intro i _ hst
    exact (hst rfl).elim
  · exact (by decide : kernelHeapStart ≤ kernelStackBase)

/-- A region that does not end below the stacks reaches into the first of them. -/
theorem Sound.apart_iff {c : Call} (h : Sound s) (hst : act s c = some t)
    (hsp : Supplied s c) : Apart t ↔ BelowStacks s c := by
  refine ⟨?_,fun hbl => (h.step hst hsp hbl).apart⟩
  cases c with
  | create rip rsp => exact fun _ => trivial
  | createElf image => exact fun _ => trivial
  | kmalloc size =>
    intro hap hgw
    obtain ⟨r,hr,rfl⟩ := Option.map_eq_some_iff.mp hst
    obtain ⟨bs,hbs⟩ := h.heap
    have hbl := h.below
    obtain ⟨-,hrm,-⟩ := regionTotal_spec hsp.1
    rcases kmalloc_cases hbs hsp.1 hr (hsp.2 r hr) with ⟨hno,-⟩ | ⟨-,-,-,hnx⟩
    · exact absurd hgw hno
    by_contra hov
    have hmem : (s.run.heap.nextHeapVirt,s.run.heap.nextHeapVirt+regionTotal size) ∈
        (afterKmalloc s.run r).regions := by
      have hgr : ¬ s.run.heap.nextHeapVirt+regionTotal size = s.run.heap.nextHeapVirt := by
        omega
      simp only [afterKmalloc,hnx,hgr,if_false]
      exact List.mem_cons_self
    refine hap _ _ hmem kernelStackBase hbl (by omega) 0 (by decide) ⟨?_,?_⟩
    · rw [stackBaseOf]
      omega
    · rw [stackBaseOf,kernelStackSize]
      omega

/-- In runs whose regions all end below the stacks, the heap has no page of a kernel stack
and no request changes where a stack is mapped; the first request that goes further takes a
page of the first stack. -/
theorem heap_apart_from_stacks (l : List Call) (s : Machine)
    (h : Trace (machineRuns.guarded BelowStacks) l s) :
    Apart s ∧
      (∀ size t, act s (.kmalloc size) = some t → Supplied s (.kmalloc size) →
        BelowStacks s (.kmalloc size) → StacksKept s t) ∧
      ∀ c t, act s c = some t → Supplied s c → (Apart t ↔ BelowStacks s c) := by
  have hsn : Sound s := by
    refine h.reach.invariant Sound (fun s hs => .initialised hs) ?_
    rintro s c t hs ⟨⟨hst,hsp⟩,hbl⟩
    exact hs.step hst hsp hbl
  refine ⟨hsn.apart,?_,fun c t => hsn.apart_iff⟩
  intro size t hst hsp hbl
  exact (hsn.kmalloc_step hst hsp hbl).2

/-- All blocks are in use and few frames are taken. -/
structure Filled (s : Machine) (n : ℕ) : Prop where
  heap : ∃ bs, Kmalloc.Sound s.run bs ∧ ∀ b ∈ bs, b.used ≠ 0
  pmm : ∃ j ≤ n, s.run.heap.vmm.pmm = AddressSpace.after j AddressSpace.freshPmm

lemma Filled.step {n : ℕ} (h : Filled s n) (hsz : size ≤ kmallocMaxSize) (hpos : size ≠ 0)
    (hn : n+4*((regionTotal size+4095) / 4096) ≤ 32000) : ∃ t, act s (.kmalloc size) = some t ∧
    Supplied s (.kmalloc size) ∧ Filled t (n+4*((regionTotal size+4095) / 4096)) ∧
    t.run.heap.nextHeapVirt = s.run.heap.nextHeapVirt+regionTotal size ∧
    t.run.regions = (s.run.heap.nextHeapVirt,s.run.heap.nextHeapVirt+regionTotal size) ::
    s.run.regions := by
  obtain ⟨bs,hbs,hus⟩ := h.heap
  obtain ⟨j,hj,hpmm⟩ := h.pmm
  have hfn : findBlock s.run.heap size (s.run.heap.nextHeapVirt-kernelHeapStart+1)
      s.run.heap.kmallocHead = some 0 := by
    rw [hbs.tiled.head]
    rcases findBlock_spec size hbs.tiled.listed (hbs.tiled.separated hbs.next_lt) hbs.length_lt with
      hno | ⟨pre,b,post,rfl,hfr,-⟩
    · exact hno
    · exact absurd hfr (hus b (by simp))
  have hkm : kmalloc s.run.heap size = some (growHeap s.run.heap size) := by
    rw [kmalloc,if_neg (by omega),hfn]
    rfl
  have hen : FrameSupply.Enough (4*((regionTotal size+4095) / 4096)) s.run.heap.vmm.pmm := by
    rw [hpmm]
    exact FrameSupply.Enough.rest (FrameSupply.freshPmm_enough.mono (by omega))
  obtain ⟨hrc,j',hj',hpmm'⟩ :=
    FrameSupply.mapPagesFrom_succeeds hen s.run.heap.nextHeapVirt 0
  obtain ⟨-,hrm,-⟩ := regionTotal_spec hsz
  obtain ⟨v,hv,-,⟨hbad,-⟩ | ⟨-,heq,-⟩⟩ := growHeap_cases hsz hbs.start_le hbs.sized hbs.frames
  · exact absurd hrc hbad
  obtain ⟨bs',hbs',-,hsub⟩ := hbs.grow hsz
  have hne : (growHeap s.run.heap size).1 ≠ 0 := by
    rw [heq,headerSize]
    exact Nat.succ_ne_zero _
  obtain ⟨hvmm,hnx⟩ := pushed_state { s.run.heap with
    vmm := v
    nextHeapVirt := s.run.heap.nextHeapVirt+regionTotal size } s.run.heap.nextHeapVirt
      (regionTotal size)
  change _ = s.run.heap.nextHeapVirt+regionTotal size at hnx
  refine ⟨_,by rw [act,hkm]; rfl,⟨hsz,?_⟩,⟨⟨bs',hbs',?_⟩,?_⟩,?_,?_⟩
  · intro r hr _
    rw [hkm] at hr
    cases hr
    exact hne
  · intro b hb
    exact (hsub b hb).elim id (hus b)
  · refine ⟨j'+j,by omega,?_⟩
    change (growHeap s.run.heap size).2.vmm.pmm = _
    rw [heq]
    rw [hvmm]
    rw [hv,mapPages,hpmm',hpmm,AddressSpace.after_add]
  · change (growHeap s.run.heap size).2.nextHeapVirt = _
    rw [heq]
    exact hnx
  · simp only [afterKmalloc]
    rw [heq]
    rw [hnx]
    exact if_neg (by omega)

lemma boot_filled : ∃ s, Initialised s ∧ Filled s 7 ∧
    s.run.heap.nextHeapVirt = kernelHeapStart ∧ s.run.regions = [] := by
  obtain ⟨v,hin,hpmm⟩ := AddressSpace.fresh_boot
  have hsz : Sized v.pmm := (AddressSpace.vmmInit_spec (pmmInit_sized _ _) hin).1.sized
  refine ⟨⟨⟨kmallocInit ⟨v,fun _ => 0,0,0⟩,[],[]⟩,bootKernel v⟩,
    ⟨_,_,_,_,⟨v,fun _ => 0,0,0⟩,hin,rfl,rfl⟩,⟨⟨[],?_,by simp⟩,7,le_rfl,hpmm⟩,rfl,rfl⟩
  exact Kmalloc.Sound.initialised ⟨_,rfl,hsz⟩

theorem heap_apart_from_stacks_one_page :
    ∃ s, Trace (machineRuns.guarded BelowStacks) [.kmalloc 64,.create 0x400000 0x800000] s ∧
      s.run.regions = [(0xFFFF800000000000,0xFFFF800000001000)] ∧ Apart s := by
  obtain ⟨s,hin,hfl,hnx,hrg⟩ := boot_filled
  have htl : regionTotal 64 = 4096 := by decide
  obtain ⟨t,hact,hsp,-,-,hrg'⟩ := hfl.step
    (by decide : 64 ≤ kmallocMaxSize) (by decide) (by rw [htl]; omega)
  have hbl : BelowStacks s (.kmalloc 64) := by
    intro _
    rw [hnx,htl]
    decide
  have hst : Trace (machineRuns.guarded BelowStacks) [] s := .start hin
  have hgr : Trace (machineRuns.guarded BelowStacks) [.kmalloc 64] t :=
    hst.next ⟨⟨hact,hsp⟩,hbl⟩
  have hcr : Trace (machineRuns.guarded BelowStacks) [.kmalloc 64,.create 0x400000 0x800000]
      (t.withKernel (processCreate t.kernel 0x400000 0x800000).2) :=
    hgr.next ⟨⟨rfl,trivial⟩,trivial⟩
  refine ⟨_,hcr,?_,(heap_apart_from_stacks _ _ hcr).1⟩
  change t.run.regions = _
  rw [hrg',hnx,htl,hrg,kernelHeapStart]

lemma filled_run (n : ℕ) (hn : n ≤ 16) :
    ∃ s, Trace machineRuns (List.replicate n (.kmalloc 0x100000)) s ∧ Filled s (7+n*1028) ∧
      s.run.heap.nextHeapVirt = kernelHeapStart+n*0x101000 ∧
      ∀ k < n, (kernelHeapStart+k*0x101000,kernelHeapStart+(k+1)*0x101000) ∈ s.run.regions := by
  induction n with
  | zero =>
    obtain ⟨s,hin,hfl,hnx,-⟩ := boot_filled
    exact ⟨s,.start hin,hfl,hnx,fun k hk => (Nat.not_lt_zero k hk).elim⟩
  | succ n ih =>
    obtain ⟨s,htr,hfl,hnx,hrg⟩ := ih (by omega)
    have htl : regionTotal 0x100000 = 0x101000 := by decide
    obtain ⟨t,hact,hsp,hfl',hnx',hrg'⟩ := hfl.step
      (by decide : 0x100000 ≤ kmallocMaxSize) (by decide) (by rw [htl]; omega)
    refine ⟨t,?_,?_,?_,?_⟩
    · rw [List.replicate_succ']
      exact htr.next ⟨hact,hsp⟩
    · have hfr : 7+(n+1)*1028 = 7+n*1028+4*((0x101000+4095) / 4096) := by omega
      rw [hfr]
      exact hfl'
    · omega
    · intro k hk
      rw [hrg',hnx]
      by_cases hls : k = n
      · subst hls
        rw [Nat.add_mul k 1,Nat.one_mul,Nat.add_assoc]
        exact List.mem_cons_self
      · exact List.mem_cons_of_mem _ (hrg k (by omega))

/-- The sixteenth region of a MiB takes pages of the first kernel stacks. -/
theorem heap_grows_into_stacks :
    ∃ s, Trace machineRuns (List.replicate 16 (.kmalloc 0x100000)) s ∧
      (0xFFFF800000F0F000,0xFFFF800001010000) ∈ s.run.regions ∧ ¬ Apart s := by
  obtain ⟨s,htr,-,-,hrg⟩ := filled_run 16 le_rfl
  have hmem : (0xFFFF800000F0F000,0xFFFF800001010000) ∈ s.run.regions := hrg 15 (by omega)
  refine ⟨s,htr,hmem,?_⟩
  intro hap
  exact hap _ _ hmem kernelStackBase (by decide) (by decide) 0 (by decide) (by decide)

end HarlinKernel.KernelRegions
