import HarlinKernel.ElfCreation
import HarlinKernel.ElfLoad
import HarlinKernel.UserWindow

/-! What a process that was made from an ELF file finds in its address space. The stack that
`process_create_elf` gives it lies outside the user window, so that no page of it is mapped. -/
namespace HarlinKernel.ElfLoad

open BoundedReads (Holds only)
open TransitionSystem ElfParse PageTable ProcessTable UserCopy UserWindow
open AddressSpace (bootPml4 bootState freshPmm vmmInit vmmSwitch)

/-- A memory that holds the file from address 0 on. -/
def Image (f : File) : Type := { m : ElfParse.Memory // Holds (· < f.size) f.image m }

/-- Nothing but the file. -/
def aloneImage (f : File) : Image f := ⟨f.alone,fun _ ha => if_pos ha⟩

lemma aloneImage_val (f : File) : (aloneImage f).val = f.alone := rfl

/-- `e_phnum` of a 64-bit little-endian file. -/
def phnum (f : File) : ℕ := f.uint 2 56 true

/-- Program header `i` of a 64-bit little-endian file. -/
def programHeader (f : File) (i : ℕ) : ElfSegment :=
  segmentOf true (f.fields true (f.uint 8 32 true+i*f.uint 2 54 true) phdr64.widths)

/-- The segment lies in the user window and has its bytes in the file. -/
def InWindow (f : File) (seg : ElfSegment) : Prop :=
  userAddrStart ≤ seg.pVaddr ∧ seg.pVaddr+seg.pMemsz ≤ userAddrEnd ∧ seg.pFilesz ≤ seg.pMemsz ∧
    seg.pOffset+seg.pFilesz ≤ f.size

instance (f : File) (seg : ElfSegment) : Decidable (InWindow f seg) :=
  inferInstanceAs (Decidable (_ ∧ _ ∧ _ ∧ _))

def Disjoint (a b : ElfSegment) : Prop :=
  a.pVaddr+a.pMemsz ≤ b.pVaddr ∨ b.pVaddr+b.pMemsz ≤ a.pVaddr

instance (a b : ElfSegment) : Decidable (Disjoint a b) := inferInstanceAs (Decidable (_ ∨ _))

/-- A 64-bit little-endian executable for this machine, whose segments to be loaded lie in the
user window and share no byte. -/
def Executable (f : File) : Prop :=
  (f.slice 0 4 = [0x7F,0x45,0x4C,0x46] ∧ f.byte 4 = 2 ∧ f.byte 5 = 1 ∧
    f.uint 2 16 true = etExec ∧ f.uint 2 18 true = emX8664) ∧
  (∀ i < phnum f, (programHeader f i).pType = ptLoad → InWindow f (programHeader f i)) ∧
  ∀ i < phnum f, ∀ j < phnum f, i ≠ j → (programHeader f i).pType = ptLoad →
    (programHeader f j).pType = ptLoad → Disjoint (programHeader f i) (programHeader f j)

instance (f : File) : Decidable (Executable f) := inferInstanceAs (Decidable (_ ∧ _ ∧ _))

/-- The memory that a process sees. -/
def space (s : Machine) (pid : ℕ) : UserMem :=
  ⟨vmmSwitch s.kernel.vmm (s.kernel.processes pid).pml4Phys,s.data⟩

/-- The user may read the byte, and it is this one. -/
structure ShowsByte (m : UserMem) (virt : ℕ) (b : UInt8) : Prop where
  granted : Grants m.vmm (vmmPresent ||| vmmUser) virt
  byte : m.byte (vmmGetPhysLocked m.vmm virt) = b

/-- The segments of the file are in the memory of the process, and so are the 16 KiB below its
stack pointer. -/
structure Loaded (f : File) (s : Machine) (pid : ℕ) : Prop where
  segments : ∀ i < phnum f, (programHeader f i).pType = ptLoad →
    ∀ o < (programHeader f i).pMemsz, ShowsByte (space s pid) ((programHeader f i).pVaddr+o)
      (if o < (programHeader f i).pFilesz then f.image ((programHeader f i).pOffset+o) else 0)
  stack : ∀ virt, (s.kernel.processes pid).rsp-16384 ≤ virt → virt < (s.kernel.processes pid).rsp →
    Grants (space s pid).vmm (vmmPresent ||| vmmUser) virt

section Creation

variable {s t : Machine} {m : ElfParse.Memory} {size : ℕ} {pid : ℤ} {clones held : List ℕ}

lemma processCreateElf_made {k : Kernel} {image : ElfImage}
    (h : 0 ≤ (ProcessTable.processCreateElf k image).1) :
    ¬ (image.accepted = false ∨ image.entry < elfUserLoadBase) ∧ ∃ slot,
    findSlot k.processes = some slot ∧ (ProcessTable.processCreateElf k image).1 = slot ∧
    ((ProcessTable.processCreateElf k image).2.processes slot).state ≠ .none ∧
    ((ProcessTable.processCreateElf k image).2.processes slot).rsp = elfUserStackTop := by
  have hneg : ∀ k' : Kernel, ¬ (0 : ℤ) ≤ ((-1,k') : ℤ × Kernel).1 :=
    fun _ => (by decide : ¬ (0 : ℤ) ≤ -1)
  rw [ProcessTable.processCreateElf] at h ⊢
  by_cases him : image.accepted = false ∨ image.entry < elfUserLoadBase
  · rw [if_pos him] at h
    exact absurd h (hneg _)
  rw [if_neg him] at h ⊢
  refine ⟨him,?_⟩
  cases hsl : findSlot k.processes with
  | none =>
    rw [hsl] at h
    exact absurd h (hneg _)
  | some slot =>
    rw [hsl] at h
    dsimp only at h ⊢
    refine ⟨slot,rfl,?_⟩
    split_ifs at h ⊢ with hlen hcl hld
    · exact absurd h (hneg _)
    · exact absurd h (hneg _)
    · exact absurd h (hneg _)
    · exact absurd h (hneg _)
    · simp [Kernel.free,modify_processes_self,Process.started]

lemma create_kernel (h : processCreateElf s m size = some (pid,t)) (hpid : 0 ≤ pid) :
    ∃ r, elfLoadExecSimple m size = some r ∧
      ProcessTable.processCreateElf s.kernel (elfImage size r) = (pid,t.kernel) := by
  have hrd : ∃ r, elfLoadExecSimple m size = some r := by
    rw [processCreateElf] at h
    by_cases hsm : size < 16
    · rw [if_pos hsm] at h
      cases h
      exact absurd hpid (by decide)
    rw [if_neg hsm] at h
    obtain ⟨ok,-,h⟩ := Option.bind_eq_some_iff.mp h
    by_cases hok : ok = false
    · rw [if_pos hok] at h
      cases h
      exact absurd hpid (by decide)
    rw [if_neg hok] at h
    obtain ⟨r,hr,-⟩ := Option.bind_eq_some_iff.mp h
    exact ⟨r,hr⟩
  obtain ⟨r,hr⟩ := hrd
  obtain ⟨t',ht',hot⟩ := outcome_processCreateElf (s := s) hr
  rw [h] at ht'
  cases ht'
  exact ⟨r,hr,hot.symm⟩

lemma create_shut (hs : Shut ⟨s.kernel.vmm,clones,held⟩)
    (h : processCreateElf s m size = some (pid,t)) (hpid : 0 ≤ pid) :
    (t.kernel.processes pid.toNat).rsp = elfUserStackTop ∧
      ∀ virt, 2^30 ≤ virt → virt < 2^39 → ¬ Grants (space t pid.toNat).vmm vmmUser virt := by
  obtain ⟨r,-,hkr⟩ := create_kernel h hpid
  have hmd : 0 ≤ (ProcessTable.processCreateElf s.kernel (elfImage size r)).1 := by rwa [hkr]
  obtain ⟨him,slot,hsl,hrc,hst,hrsp⟩ := processCreateElf_made hmd
  have hwt : Within Shut s.kernel clones [] := ⟨held,hs,by simp⟩
  obtain ⟨clones',⟨held',hsh,-⟩,-,hrt⟩ := hwt.processCreateElf stable_shut him hsl
  rw [hkr] at hrc hst hrsp hsh hrt
  obtain rfl : pid = slot := hrc
  refine ⟨hrsp,fun virt hlow hhg => ?_⟩
  exact hsh.not_granted (.inr (hrt hst)) hlow hhg

lemma grants_user {v : Vmm} {virt : ℕ} (h : Grants v (vmmPresent ||| vmmUser) virt) :
    Grants v vmmUser virt := by
  have hbt := congrArg (· &&& vmmUser) h
  rw [Nat.and_assoc] at hbt
  exact hbt

end Creation

/-- Whatever file a process is made from, it does not get the memory that the file and its stack
pointer ask for. -/
theorem never_loaded (s : Machine) (clones held : List ℕ)
    (hs : Reach pagingRuns ⟨s.kernel.vmm,clones,held⟩) (f : File) (m : Image f) (pid : ℤ)
    (t : Machine) (h : processCreateElf s m.val f.size = some (pid,t)) (hpid : 0 ≤ pid) :
    ¬ Loaded f t pid.toNat := by
  obtain ⟨hrsp,hnot⟩ := create_shut (reach_shut hs) h hpid
  intro hld
  have htop : elfUserStackTop = 0x7FFFF000 := rfl
  refine hnot (elfUserStackTop-1) (by omega) (by omega) (grants_user (hld.stack _ ?_ ?_))
  · omega
  · omega

/-- An executable with one segment of four bytes at 4 MiB. -/
def tinyFile : File where
  bytes := [0x7F,0x45,0x4C,0x46,2,1,1,0,0,0,0,0,0,0,0,0,2,0,62,0,1,0,0,0] ++
    [0,0,0x40,0,0,0,0,0,64,0,0,0,0,0,0,0,0,0,0,0,0,0,0,0,0,0,0,0,64,0,56,0,1,0,0,0,0,0,0,0] ++
    [1,0,0,0,5,0,0,0,120,0,0,0,0,0,0,0,0,0,0x40,0,0,0,0,0,0,0,0x40,0,0,0,0,0] ++
    [4,0,0,0,0,0,0,0,4,0,0,0,0,0,0,0,0,16,0,0,0,0,0,0] ++ [0x90,0x90,0xEB,0xFE]
  small := by decide +kernel

/-- What `elf_load_exec` finds in it. -/
def tinySegment : ElfSegment := ⟨1,5,120,0x400000,0x400000,4,4,4096⟩

lemma tinyFile_read : elfLoadExecSimple tinyFile.alone tinyFile.size =
    some (some (⟨0x400000,0,0,0,0x400000,0x400004,true,0,1⟩,[tinySegment])) := by
  decide +kernel

lemma tinySegment_fits : (toSegment tinySegment).Fits tinyFile.size := by
  constructor <;> decide +kernel

lemma boot_tinyFile : ∃ v t, vmmInit (bootState (fun _ _ => 0) freshPmm) bootPml4 = some v ∧
    processCreateElf ⟨bootKernel v,fun _ _ => 0⟩ tinyFile.alone tinyFile.size = some (0,t) := by
  obtain ⟨v,hin,hpmm⟩ := AddressSpace.fresh_boot
  obtain ⟨-,-,-,-,pt,htm⟩ := AddressSpace.vmmInit_spec (PageAllocator.pmmInit_sized _ _) hin
  obtain ⟨t,ht,hot⟩ :=
    outcome_processCreateElf (s := ⟨bootKernel v,fun _ _ => 0⟩) tinyFile_read
  have hvmm : (bootKernel v).vmm = v := rfl
  have hpg : Paged (bootKernel v) [] [] :=
    ⟨[],AddressSpace.Sound.boot ⟨rfl,rfl,_,_,_,hin⟩,by simp⟩
  have hrc : t.1 = 0 := by
    refine (congrArg Prod.fst hot).trans ?_
    refine processCreateElf_succeeds (bootKernel_slot v) hpg ?_ rfl (le_refl 0x400000) ?_ ?_
    · intro r hr k hk
      obtain rfl := hr.resolve_right List.not_mem_nil
      have hbs : stackBaseOf 0 = 0xFFFF800001000000 := rfl
      refine TempTable.passable htm ?_
      rw [hbs]
      omega
    · intro seg hseg
      rw [List.mem_singleton.mp hseg]
      exact tinySegment_fits
    · rw [hvmm,hpmm]
      exact FrameSupply.Enough.rest (FrameSupply.freshPmm_enough.mono (by decide))
  exact ⟨v,t.2,hin,by rw [ht,← hrc]⟩

lemma boot_reach {v : Vmm} (h : vmmInit (bootState (fun _ _ => 0) freshPmm) bootPml4 = some v) :
    Reach pagingRuns ⟨(bootKernel v).vmm,[],[]⟩ := by
  have hbt : AddressSpace.Booted ⟨(bootKernel v).vmm,[],[]⟩ := ⟨rfl,rfl,_,_,_,h⟩
  exact (Trace.start hbt).reach

theorem never_loaded_tinyFile : ∃ s t, Reach pagingRuns ⟨s.kernel.vmm,[],[]⟩ ∧
    processCreateElf s tinyFile.alone tinyFile.size = some (0,t) ∧ ¬ Loaded tinyFile t 0 := by
  obtain ⟨v,t,hin,hcr⟩ := boot_tinyFile
  have hnv := never_loaded ⟨bootKernel v,fun _ _ => 0⟩ [] [] (boot_reach hin) tinyFile
    (aloneImage tinyFile) 0 t (by rw [aloneImage_val,hcr]) (Int.le_refl 0)
  exact ⟨_,t,boot_reach hin,hcr,hnv⟩

/-- A process is made of the file, and users have no access to the word below its stack
pointer. -/
theorem stack_not_mapped : ∃ v t, vmmInit (bootState (fun _ _ => 0) freshPmm) bootPml4 = some v ∧
    Executable tinyFile ∧
    processCreateElf ⟨bootKernel v,fun _ _ => 0⟩ tinyFile.alone tinyFile.size = some (0,t) ∧
    (t.kernel.processes 0).rsp = 0x7FFFF000 ∧
    ¬ Grants (space t 0).vmm vmmUser 0x7FFFEFF8 ∧ ¬ Loaded tinyFile t 0 := by
  obtain ⟨v,t,hin,hcr⟩ := boot_tinyFile
  obtain ⟨hrsp,hnot⟩ := create_shut (reach_shut (boot_reach hin)) hcr le_rfl
  have hwr := hnot 0x7FFFEFF8 (by decide) (by decide)
  refine ⟨v,t,hin,by decide +kernel,hcr,hrsp,hwr,fun hld => ?_⟩
  refine hwr (grants_user (hld.stack _ ?_ ?_))
  · rw [show (0 : ℕ) = (0 : ℤ).toNat from rfl,hrsp]
    decide
  · rw [show (0 : ℕ) = (0 : ℤ).toNat from rfl,hrsp]
    decide

end HarlinKernel.ElfLoad
