import HarlinKernel.KmallocSafety

/-! The system calls on the kernel heap. `sys_kfree` takes bytes in front of a pointer for the
header of a block, wherever the pointer comes from; what follows says when only headers of blocks
look like one. -/
namespace HarlinKernel.Kmalloc

open PageTable RecordMemory TransitionSystem

/-- The size check of `sys_kmalloc` before the call. -/
def sysKmalloc (h : Heap Vmm) (size : ℕ) : Option (ℕ × Heap Vmm) :=
  if size = 0 ∨ 0x100000 < size then some (0,h) else kmalloc h size

/-- `sys_kfree` judges a pointer by the bytes in front of it; `-1` is `2^64-1`. -/
def sysKfree (h : Heap Vmm) (ptr : ℕ) : ℕ × Heap Vmm :=
  if ptr = 0 then (0,h)
  else if ptr < 0xFFFF800000000000 ∨ 0xFFFF800010000000 ≤ ptr then (2^64-1,h)
  else if h.field (headerOf ptr) .magic ≠ 0x48414E44 ∨ h.field (headerOf ptr) .used ≠ 1 then
    (2^64-1,h)
  else (0,kfree h ptr)

/-- The pointer is the payload address of a listed block in use. -/
def InUse (bs : List Block) (ptr : ℕ) : Prop := ∃ b ∈ bs, b.addr = headerOf ptr ∧ b.used ≠ 0

/-- `sys_kfree` succeeds for blocks in use only and leaves the heap alone otherwise. -/
def FreesOnlyBlocks (h : Heap Vmm) (bs : List Block) : Prop :=
  ∀ ptr ≠ 0, ((sysKfree h ptr).1 = 0 → InUse bs ptr) ∧
    (¬InUse bs ptr → sysKfree h ptr = (2^64-1,h))

/-- The lowest byte of the magic number, which is the first one in memory. -/
def magicByte : UInt8 := 0x44

/-- The neighbours of a block in the list are in use, so that `kfree` merges nothing and leaves no
header behind in a payload. -/
def Unmerged (h : Heap Vmm) (block : ℕ) : Prop :=
  (h.field block .next ≠ 0 → h.field (h.field block .next) .used ≠ 0) ∧
    (h.field block .prev ≠ 0 → h.field (h.field block .prev) .used ≠ 0)

/-- Callers do not store the byte with which a header begins, and what they free is not merged. -/
def Unforging (s : HeapRun) : Call → Prop
  | .kmalloc _ => True
  | .kfree ptr => ptr ≠ 0 → Unmerged s.heap (headerOf ptr)
  | .write _ _ byte => byte ≠ magicByte

instance (h : Heap Vmm) (block : ℕ) : Decidable (Unmerged h block) :=
  inferInstanceAs (Decidable (_ ∧ _))

instance (s : HeapRun) : (c : Call) → Decidable (Unforging s c)
  | .kmalloc _ => inferInstanceAs (Decidable True)
  | .kfree ptr => inferInstanceAs (Decidable (ptr ≠ 0 → Unmerged s.heap (headerOf ptr)))
  | .write _ _ byte => inferInstanceAs (Decidable (byte ≠ magicByte))

/-- `kmalloc_init` over memory without that byte. -/
def Cleared (s : HeapRun) : Prop :=
  Initialised s ∧ ∀ x, kernelHeapStart-headerSize ≤ x → s.heap.mem x ≠ magicByte

/-- Runs of callers that forge nothing. -/
def unforgedRuns : System HeapRun Call :=
  (actions Cleared act).guarded fun s c => Proper s c ∧ Unforging s c

section Headers

variable {h : Heap Vmm} {b : Block} {x p n : ℕ}

/-- An address of the heap as `sys_kfree` bounds it, or null. -/
def InWindow (v : ℕ) : Prop :=
  v = 0 ∨ kernelHeapStart ≤ v ∧ v ≤ 0xFFFF800010000000

/-- The highest byte of each word of a header behind the magic number is none of its bytes. -/
lemma header_high_bytes (hfl : h.field b.addr = b.header p n) (hsm : Small b)
    (hsz : b.size < 2^30) (hbs : InWindow b.base) (hp : InWindow p) (hn : InWindow n) (k : ℕ)
    (hk : 0 < k) (hk' : k < 10) :
    (h.mem (b.addr+4*k+3)).toNat < 0x41 ∨ 0x4E < (h.mem (b.addr+4*k+3)).toNat := by
  have hby (f : Field) (i : ℕ) (hi : i < f.width) :
      b.header p n f / 256^i % 256 = (h.mem (b.addr+f.offset+i)).toNat := by
    rw [← hfl]
    exact load_byte hi
  obtain ⟨hus,hpg⟩ := hsm
  simp only [InWindow,kernelHeapStart] at hbs hp hn
  interval_cases k
  · have hv : b.size / 256^3 % 256 = (h.mem (b.addr+4*1+3)).toNat := hby .size 3 (by decide)
    omega
  · have hv : b.used / 256^3 % 256 = (h.mem (b.addr+4*2+3)).toNat := hby .used 3 (by decide)
    omega
  · have hv : b.pages / 256^3 % 256 = (h.mem (b.addr+4*3+3)).toNat := hby .pages 3 (by decide)
    omega
  · have hv : b.base / 256^3 % 256 = (h.mem (b.addr+4*4+3)).toNat := hby .baseVirt 3 (by decide)
    omega
  · have hv : b.base / 256^7 % 256 = (h.mem (b.addr+4*5+3)).toNat := hby .baseVirt 7 (by decide)
    omega
  · have hv : n / 256^3 % 256 = (h.mem (b.addr+4*6+3)).toNat := hby .next 3 (by decide)
    omega
  · have hv : n / 256^7 % 256 = (h.mem (b.addr+4*7+3)).toNat := hby .next 7 (by decide)
    omega
  · have hv : p / 256^3 % 256 = (h.mem (b.addr+4*8+3)).toNat := hby .prev 3 (by decide)
    omega
  · have hv : p / 256^7 % 256 = (h.mem (b.addr+4*9+3)).toNat := hby .prev 7 (by decide)
    omega

lemma magic_bytes (hmg : h.field x .magic = kmallocBlockMagic) :
    (h.mem x).toNat = 0x44 ∧ (h.mem (x+1)).toNat = 0x4E ∧ (h.mem (x+2)).toNat = 0x41 ∧
      (h.mem (x+3)).toNat = 0x48 := by
  have hby (i : ℕ) (hi : i < 4) : kmallocBlockMagic / 256^i % 256 = (h.mem (x+i)).toNat := by
    rw [← hmg]
    exact load_byte hi
  exact ⟨(hby 0 (by decide)).symm,(hby 1 (by decide)).symm,(hby 2 (by decide)).symm,
    (hby 3 (by decide)).symm⟩

/-- The magic number does not begin in the middle of a header: whichever word it begins in, the
highest byte of that word would be one of its first bytes. -/
lemma magic_at_header (hmg : h.field x .magic = kmallocBlockMagic)
    (hbm : h.field b.addr .magic = kmallocBlockMagic)
    (hhg : ∀ k, 0 < k → k < 10 →
      (h.mem (b.addr+4*k+3)).toNat < 0x41 ∨ 0x4E < (h.mem (b.addr+4*k+3)).toNat)
    (hx : Covers b.addr x) : b.addr = x := by
  obtain ⟨hlow,hup⟩ := hx
  rw [headerSize] at hup
  obtain ⟨o,rfl⟩ := Nat.exists_eq_add_of_le hlow
  obtain ⟨h0,h1,h2,h3⟩ := magic_bytes hmg
  have hbt := (magic_bytes hbm).2.2.2
  have hword : o / 4 = 0 ∧ (h.mem (b.addr+4*(o / 4)+3)).toNat = 0x48 ∨
      (h.mem (b.addr+4*(o / 4)+3)).toNat < 0x41 ∨ 0x4E < (h.mem (b.addr+4*(o / 4)+3)).toNat := by
    by_cases hk : o / 4 = 0
    · exact .inl ⟨hk,by rw [hk]; exact hbt⟩
    · exact .inr (hhg (o / 4) (by omega) (by omega))
  have hcase : o % 4 = 0 ∨ o % 4 = 1 ∨ o % 4 = 2 ∨ o % 4 = 3 := by omega
  rcases hcase with hm | hm | hm | hm
  · rw [show b.addr+4*(o / 4)+3 = b.addr+o+3 by omega] at hword
    omega
  · rw [show b.addr+4*(o / 4)+3 = b.addr+o+2 by omega] at hword
    omega
  · rw [show b.addr+4*(o / 4)+3 = b.addr+o+1 by omega] at hword
    omega
  · rw [show b.addr+4*(o / 4)+3 = b.addr+o by omega] at hword
    omega

end Headers

section Runs

variable {s t : HeapRun} {bs : List Block} {c : Call} {h : Heap Vmm} {ptr : ℕ}

/-- What holds after each step of callers that forge nothing: headers begin with the byte, and
nothing else in the heap does. -/
structure Clean (s : HeapRun) (bs : List Block) : Prop extends Sound s bs where
  small : ∀ b ∈ bs, Small b
  bytes : ∀ x, kernelHeapStart-headerSize ≤ x → (∀ b ∈ bs, ¬ Covers b.addr x) →
    s.heap.mem x ≠ magicByte

lemma Clean.kept {bs' : List Block} (hc : Clean s bs) (hs : Sound t bs')
    (hk : Kept s.heap bs t.heap bs') : Clean t bs' := by
  refine ⟨hs,hk.small hc.small,fun x hlow hx => ?_⟩
  rw [hk.mem x hx]
  refine hc.bytes x hlow fun b hb hcv => ?_
  obtain ⟨b',hb',had⟩ := hk.addr b hb
  exact hx b' hb' (by rwa [had])

lemma Clean.kfree (hc : Clean s bs) (hptr : ptr ∈ s.live)
    (hun : Unmerged s.heap (headerOf ptr)) :
    ∃ bs, Clean ⟨kfree s.heap ptr,s.live.erase ptr,s.regions⟩ bs := by
  obtain ⟨b,hb,hus,rfl⟩ := mem_pointers.1 (hc.live.mem_iff.1 hptr)
  have hnx := hc.next_lt
  have hht := hc.tiled
  rw [headerOf_pointer ((hht.separated hnx).addr b hb).2] at hun
  have hkf := kfree_pointer hht hnx hb
  obtain ⟨pre,post,rfl⟩ := List.append_of_mem hb
  have hset := hht.setUsed (v:=0) hnx (Nat.two_pow_pos 32)
  have hnext (c : Block) (cs : List Block) (heq : post = c :: cs) : c.used ≠ 0 := by
    subst heq
    obtain ⟨hfl,hne,huc,-⟩ := hht.next_field hnx
    have hnu := hun.1
    rw [hfl,huc] at hnu
    exact hnu hne
  have hprev (c : Block) (cs : List Block) (heq : pre = cs ++ [c]) : c.used ≠ 0 := by
    subst heq
    obtain ⟨hfl,hne,huc,-⟩ := hht.prev_field hnx
    have hpu := hun.2
    rw [hfl,huc] at hpu
    exact hpu hne
  have hkp : Kmalloc.kfree s.heap (b.addr+headerSize) = s.heap.setField b.addr .used 0 := by
    have hmn := mergeNext_kept hset.listed hnext
    have hmp := mergePrev_kept hset.listed hprev
    dsimp only at hmn hmp
    rw [hkf,hmn,hmp]
  rw [hkp]
  have hsn := hc.toSound.freed hus (SameState.refl s.heap).setField hset
    (by rw [pointers_append,pointers_free rfl,pointers_append])
  refine ⟨_,hc.kept hsn ⟨fun x hx => ?_,fun hsl x hx => ?_,fun x hx => ?_⟩⟩
  · rcases List.mem_append.1 hx with hx | hx
    · exact ⟨x,List.mem_append_left _ hx,rfl⟩
    rcases List.mem_cons.1 hx with rfl | hx
    · exact ⟨{ x with used := 0 },by simp,rfl⟩
    · exact ⟨x,by simp [hx],rfl⟩
  · rcases List.mem_append.1 hx with hx | hx
    · exact hsl x (List.mem_append_left _ hx)
    rcases List.mem_cons.1 hx with rfl | hx
    · exact ⟨Nat.zero_le 1,(hsl b (by simp)).2⟩
    · exact hsl x (by simp [hx])
  · exact setField_mem (hx { b with used := 0 } (by simp))

lemma Clean.step (hc : Clean s bs) (hst : act s c = some t) (hpr : Proper s c)
    (hun : Unforging s c) : ∃ bs, Clean t bs := by
  cases c with
  | kmalloc size =>
    obtain ⟨r,hr,bs',hsn,hk⟩ := hc.toSound.kmalloc size
    rw [act,hr] at hst
    cases hst
    exact ⟨bs',hc.kept hsn hk⟩
  | kfree ptr =>
    cases hst
    by_cases hzr : ptr = 0
    · subst hzr
      have hsn := hc.toSound.kfree_null
      exact ⟨bs,hc.kept hsn (.refl s.heap bs)⟩
    · exact hc.kfree (hpr.resolve_left hzr) (hun hzr)
  | write ptr offset byte =>
    cases hst
    refine ⟨bs,hc.toSound.write hpr.1 hpr.2 byte,hc.small,fun x hlow hx => ?_⟩
    by_cases hat : x = ptr+offset
    · have hby : byte ≠ magicByte := hun
      simpa [hat] using hby
    · simpa [Function.update_of_ne hat] using hc.bytes x hlow hx

lemma Clean.freesOnlyBlocks (hc : Clean s bs)
    (hwin : s.heap.nextHeapVirt ≤ 0xFFFF800010000000) : FreesOnlyBlocks s.heap bs := by
  have hin (b : Block) (hb : b ∈ bs) : InWindow b.addr ∧ InWindow b.base ∧ b.size < 2^30 := by
    obtain ⟨rs,hst,rfl,-⟩ := hc.tiled.stacked
    obtain ⟨e,-,hlow,hhg,-,hsr,he⟩ := hst.inside hb
    rw [Block.stop,Block.span,headerSize] at hhg
    rw [kernelHeapStart] at hsr
    simp only [InWindow,kernelHeapStart]
    omega
  have hhead (b : Block) (hb : b ∈ bs) (x : ℕ) (hx : Covers b.addr x)
      (hmg : s.heap.field x .magic = kmallocBlockMagic) : b.addr = x := by
    obtain ⟨pre,post,rfl⟩ := List.append_of_mem hb
    have hfl := hc.tiled.listed.field
    obtain ⟨-,hbs,hsz⟩ := hin b hb
    refine magic_at_header hmg (by rw [hfl]; rfl) (header_high_bytes hfl (hc.small b hb) hsz hbs
      ?_ ?_) hx
    · rcases List.eq_nil_or_concat pre with rfl | ⟨cs,c,rfl⟩
      · exact .inl rfl
      · rw [List.concat_eq_append,last_append_singleton]
        exact (hin c (by simp)).1
    · cases post with
      | nil => exact .inl rfl
      | cons c cs => exact (hin c (by simp)).1
  intro ptr hne
  by_cases hok : 0xFFFF800000000000 ≤ ptr ∧ ptr < 0xFFFF800010000000 ∧
      s.heap.field (headerOf ptr) .magic = kmallocBlockMagic ∧
      s.heap.field (headerOf ptr) .used = 1
  · obtain ⟨hlow,hup,hmg,hus⟩ := hok
    have hat : headerOf ptr = ptr-headerSize := by
      rw [headerOf,headerSize]
      omega
    have hby : s.heap.mem (headerOf ptr) = magicByte :=
      UInt8.toNat_inj.mp (magic_bytes hmg).1
    obtain ⟨b,hb,hcv⟩ : ∃ b ∈ bs, Covers b.addr (headerOf ptr) := by
      by_contra hno
      push Not at hno
      refine hc.bytes (headerOf ptr) ?_ hno hby
      rw [hat,kernelHeapStart]
      omega
    have had := hhead b hb _ hcv hmg
    obtain ⟨p,n,hfl⟩ := hc.tiled.field hb
    have huse : InUse bs ptr := by
      refine ⟨b,hb,had,?_⟩
      rw [← had,hfl] at hus
      have hone : b.used = 1 := hus
      omega
    exact ⟨fun _ => huse,fun hno => absurd huse hno⟩
  · have hfl : sysKfree s.heap ptr = (2^64-1,s.heap) := by
      rw [sysKfree,if_neg hne]
      split_ifs with hrn hhd
      · rfl
      · rfl
      · push Not at hrn hhd
        exact absurd ⟨hrn.1,hrn.2,hhd.1,hhd.2⟩ hok
    refine ⟨fun hzr => ?_,fun _ => hfl⟩
    rw [hfl] at hzr
    cases hzr

/-- In every run from memory without the first byte of the magic number, in which callers never
store that byte and free no block that is merged, `sys_kfree` succeeds for the payload addresses
of blocks in use only, as long as the heap has not outgrown the addresses that it accepts. -/
theorem sys_kfree_only_blocks (l : List Call) (s : HeapRun) (h : Trace unforgedRuns l s)
    (hwin : s.heap.nextHeapVirt ≤ 0xFFFF800010000000) :
    ∃ bs, Tiled s.heap bs s.regions ∧ FreesOnlyBlocks s.heap bs := by
  have hcl : ∃ bs, Clean s bs := by
    refine h.reach.invariant (fun s => ∃ bs, Clean s bs) ?_ ?_
    · rintro s ⟨hin,hmem⟩
      exact ⟨[],.initialised hin,by simp,fun x hlow _ => hmem x hlow⟩
    · rintro s c t ⟨bs,hc⟩ ⟨hst,hpr,hun⟩
      exact hc.step hst hpr hun
  obtain ⟨bs,hc⟩ := hcl
  exact ⟨bs,hc.tiled,hc.freesOnlyBlocks hwin⟩

end Runs

lemma freshHeap_cleared : Cleared freshHeap :=
  ⟨freshHeap_initialised,fun _ _ => (by decide : (0 : UInt8) ≠ magicByte)⟩

/-- Two blocks with bytes of their callers; the first one is freed and taken again. -/
def storeAndFree : List Call :=
  [.kmalloc 4056,.kmalloc 4056,.write (kernelHeapStart+40) 0 0x48,.write (kernelHeapStart+40) 8 1,
    .kfree (kernelHeapStart+40),.kmalloc 100]

theorem sys_kfree_only_blocks_stored : ∃ s, Trace unforgedRuns storeAndFree s ∧
    s.live = [kernelHeapStart+40,kernelHeapStart+4136] ∧ s.heap.mem (kernelHeapStart+48) = 1 ∧
    (sysKfree s.heap (kernelHeapStart+40)).1 = 0 ∧
    (sysKfree s.heap (kernelHeapStart+80)).1 = 2^64-1 ∧
    ∃ bs, Tiled s.heap bs s.regions ∧ FreesOnlyBlocks s.heap bs := by
  refine exists_actions (P := fun s => s.live = [kernelHeapStart+40,kernelHeapStart+4136] ∧
      s.heap.mem (kernelHeapStart+48) = 1 ∧ (sysKfree s.heap (kernelHeapStart+40)).1 = 0 ∧
      (sysKfree s.heap (kernelHeapStart+80)).1 = 2^64-1 ∧
      s.heap.nextHeapVirt ≤ 0xFFFF800010000000) freshHeap_cleared (by decide +kernel) ?_
  rintro s htr ⟨hlive,hmem,hok,hno,hwin⟩
  exact ⟨hlive,hmem,hok,hno,sys_kfree_only_blocks _ s htr hwin⟩

/-- The heap after `sys_kmalloc(100)` and stores of its caller, who writes a header at the
start of the payload. -/
def forgedHeap : Heap Vmm :=
  ((sysKmalloc freshHeap.heap 100).getD (0,freshHeap.heap)).2.writeHeader (kernelHeapStart+40)
    (header 16 1 0 0 0 0)

/-- The only block of the list. -/
def forgedBlock : Block := ⟨kernelHeapStart,4056,1,1,kernelHeapStart⟩

/-- A pointer behind a forged header in the payload is accepted. -/
theorem forged_header_freed :
    (sysKmalloc freshHeap.heap 100).map Prod.fst = some (kernelHeapStart+40) ∧
      Listed forgedHeap 0 [forgedBlock] 0 ∧ forgedHeap.kmallocHead = kernelHeapStart ∧
      (sysKfree forgedHeap (kernelHeapStart+80)).1 = 0 ∧
      ¬FreesOnlyBlocks forgedHeap [forgedBlock] := by
  have hzr : (sysKfree forgedHeap (kernelHeapStart+80)).1 = 0 := by decide
  refine ⟨by decide,⟨?_,trivial⟩,by decide,hzr,fun hfr => ?_⟩
  · funext f
    cases f <;> decide
  · obtain ⟨b,hb,had,-⟩ := (hfr (kernelHeapStart+80) (by decide)).1 hzr
    obtain rfl := List.mem_singleton.1 hb
    exact absurd had (by decide)

end HarlinKernel.Kmalloc
