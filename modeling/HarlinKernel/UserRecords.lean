import HarlinKernel.ProcessFrames
import HarlinKernel.UserUnmap

/-! The pages that a process records, as a list of addresses and frames, and what keeps it in
step with the page tables, the allocator and the log: giving the process a page that was not
translated, and taking back one that is recorded. -/
namespace HarlinKernel
namespace PageTable

open LabelledWalk PageAllocator

variable {mem : ℕ → ℕ → ℕ} {root v f pt : ℕ}

lemma leafOf_of_table (hpt : descend (next mem) (0,root) (tablePath v) = some (3,pt))
    (hph : physAddr mem root v = some f) (hpage : v % 4096 = 0) :
    leafOf mem root v = some (f,0xFFF) := by
  have hof : v &&& 0xFFF = 0 := (page_offset v).trans hpage
  by_cases hab : mem pt (ptIdx v) &&& vmmPresent = 0
  · have hno := leafOf_absent hpt hab ⟨[],rfl⟩
    rw [physAddr_leafOf,hno] at hph
    cases hph
  · have hlf := leafOf_stop hpt (entryStep_page hab) ⟨[],rfl⟩
    rw [physAddr_leafOf,hlf] at hph
    rw [hlf]
    simp only [Leaf.at,Option.map_some,Option.some.injEq,hof,Nat.or_zero] at hph
    rw [hph]

lemma leafOf_physAddr (h : leafOf mem root v = some (f,0xFFF)) (hpage : v % 4096 = 0) :
    physAddr mem root v = some f := by
  have hof : v &&& 0xFFF = 0 := (page_offset v).trans hpage
  rw [physAddr_leafOf,h]
  simp [Leaf.at,hof]

lemma Tables.pmmFree {p : Pmm} {roots : Set ℕ} (h : Tables mem p roots) (hout : Outside mem roots f)
    (hf : InPool p f) : Tables mem (PageAllocator.pmmFree p f) roots := by
  obtain ⟨hsz,htl⟩ := pmmFree_sized h.sized hf
  refine ⟨hsz,h.unshared,h.aligned,?_⟩
  intro r hr q n hn hfr
  obtain ⟨i,hi,heq⟩ := hfr.inPool
  have hhl : Allocated p n.2 := InPool.allocated ⟨i,htl ▸ hi,heq⟩ (h.taken r hr q n hn)
  exact (hhl.pmmFree h.sized hf (hout r hr q n hn)).not_free hfr

end PageTable

namespace UserPages

open PageAllocator PageTable ProcessTable

variable {j virt : ℕ} {p : Process}

section Lists

variable {α β : Type*} [DecidableEq α]

lemma filter_key_eq_eraseIdx {l : List (α × β)} (h : (l.map Prod.fst).Nodup)
    (hj : j < l.length) : l.filter (fun x => x.1 ≠ (l.get ⟨j,hj⟩).1) = l.eraseIdx j := by
  induction l generalizing j with
  | nil => cases hj
  | cons x l ih =>
    rw [List.map_cons,List.nodup_cons] at h
    have hkey : ∀ y ∈ l, y.1 ≠ x.1 := fun y hy hbad => h.1 (hbad ▸ List.mem_map_of_mem hy)
    cases j with
    | zero =>
      simp only [List.get_eq_getElem,List.getElem_cons_zero,List.eraseIdx_cons_zero]
      rw [List.filter_cons_of_neg (by simp),
        List.filter_eq_self.mpr fun y hy => by simpa using hkey y hy]
    | succ j =>
      have hj' : j < l.length := by simpa using hj
      have hne := hkey _ (List.get_mem l ⟨j,hj'⟩)
      rw [List.filter_cons_of_pos (by simpa using hne.symm)]
      exact congrArg _ (ih h.2 hj')

end Lists

/-- The entries of the table, oldest first. -/
def pairs (p : Process) : List (ℕ × ℕ) :=
  (List.range p.pageCount).map fun i => (p.userVaddrs i,p.userPages i)

@[simp] lemma pairs_length (p : Process) : (pairs p).length = p.pageCount := by simp [pairs]

lemma pairs_record (h : p.pageCount < userPagesMax) (virt phys : ℕ) :
    pairs (p.record virt phys) = pairs p ++ [(virt,phys)] := by
  rw [Process.record,if_pos h]
  simp only [pairs,List.range_succ,List.map_append,List.map_singleton,Function.update_self]
  congr 1
  refine List.map_congr_left fun i hi => ?_
  have hne : i ≠ p.pageCount := (List.mem_range.mp hi).ne
  rw [Function.update_of_ne hne,Function.update_of_ne hne]

lemma findPage_none (h : findPage p virt = none) : ∀ x ∈ pairs p, x.1 ≠ virt := by
  intro x hx
  obtain ⟨i,hi,rfl⟩ := List.mem_map.mp hx
  have hnot := List.find?_eq_none.mp h i hi
  simpa using hnot

lemma findPage_some (h : findPage p virt = some j) : j < p.pageCount ∧ p.userVaddrs j = virt := by
  have hmem := List.mem_of_find?_eq_some h
  have hkey := List.find?_some h
  exact ⟨List.mem_range.mp hmem,of_decide_eq_true hkey⟩

lemma pairs_forget (h : ((pairs p).map Prod.fst).Nodup) (virt : ℕ) :
    pairs (Process.forget p virt) = (pairs p).filter fun x => x.1 ≠ virt := by
  rw [Process.forget]
  cases hfn : findPage p virt with
  | none =>
    exact (List.filter_eq_self.mpr fun x hx => by simpa using findPage_none hfn x hx).symm
  | some j =>
    obtain ⟨hj,hvr⟩ := findPage_some hfn
    have hlen : j < (pairs p).length := by simpa using hj
    have hkey : ((pairs p).get ⟨j,hlen⟩).1 = virt := by simp [pairs,hvr]
    rw [← hkey,filter_key_eq_eraseIdx h hlen]
    apply List.ext_getElem
    · simp [List.length_eraseIdx,hj]
    · intro k hk hk'
      simp only [pairs_length] at hk
      rw [List.getElem_eraseIdx]
      by_cases hlt : k < j
      · simp [pairs,shiftDown,hlt,Nat.not_le.mpr hlt]
      · have hsh : j ≤ k ∧ k+1 < p.pageCount := by omega
        simp [pairs,shiftDown,hlt,hsh]

/-- What the log tells of a frame. -/
def eventsOn (pid f : ℕ) (log : List Event) : List Event :=
  log.filter fun e => e = .alloc pid f ∨ e = .free pid f

/-- Each time the frame was taken it was given back, once, before it was taken again. -/
def Settled (pid f : ℕ) (log : List Event) : Prop :=
  ∃ n, eventsOn pid f log = (List.replicate n [Event.alloc pid f,Event.free pid f]).flatten

/-- The log agrees with the list of the frames that are taken: each of them was given back once
each time before. -/
def Tallied (pid : ℕ) (fs : List ℕ) (log : List Event) : Prop :=
  ∀ f, ∃ n, eventsOn pid f log = (List.replicate n [Event.alloc pid f,Event.free pid f]).flatten ++
    if f ∈ fs then [Event.alloc pid f] else []

section Log

variable {pid f g : ℕ} {log : List Event} {fs fs' : List ℕ}

lemma eventsOn_append (pid f : ℕ) (log es : List Event) :
    eventsOn pid f (log ++ es) = eventsOn pid f log ++ eventsOn pid f es := List.filter_append _ _

lemma eventsOn_alloc (h : f ≠ g) :
    eventsOn pid f (log ++ [.alloc pid g]) = eventsOn pid f log := by
  simp [eventsOn,Ne.symm h]

lemma eventsOn_free (h : f ≠ g) : eventsOn pid f (log ++ [.free pid g]) = eventsOn pid f log := by
  simp [eventsOn,Ne.symm h]

lemma Tallied.alloc (h : Tallied pid fs log) (hg : g ∉ fs) :
    Tallied pid (fs ++ [g]) (log ++ [.alloc pid g]) := by
  intro f
  obtain ⟨n,hn⟩ := h f
  refine ⟨n,?_⟩
  by_cases heq : f = g
  · rw [heq] at hn ⊢
    rw [eventsOn_append,hn]
    simp [eventsOn,hg]
  · rw [eventsOn_alloc heq,hn]
    simp [heq]

lemma Tallied.free (h : Tallied pid fs log) (hg : g ∈ fs) (hfs : ∀ f, f ∈ fs' ↔ f ∈ fs ∧ f ≠ g) :
    Tallied pid fs' (log ++ [.free pid g]) := by
  intro f
  obtain ⟨n,hn⟩ := h f
  by_cases heq : f = g
  · rw [heq] at hn ⊢
    refine ⟨n+1,?_⟩
    rw [eventsOn_append,hn,List.replicate_succ',List.flatten_append,List.append_assoc]
    simp [eventsOn,hg,hfs]
  · refine ⟨n,?_⟩
    rw [eventsOn_free heq,hn]
    simp [hfs,heq]

lemma Tallied.ne_nil (h : Tallied pid fs log) (hf : f ∈ fs) : eventsOn pid f log ≠ [] := by
  obtain ⟨n,hn⟩ := h f
  rw [hn,if_pos hf]
  simp

end Log

/-- A recorded page: a page of the user window, translated through a page table to a frame that
is allocated and not used for tables. -/
structure Page (v : Vmm) (roots : Set ℕ) (x : ℕ × ℕ) : Prop where
  aligned : x.1 % 4096 = 0
  start_le : userAddrStart ≤ x.1
  lt_end : x.1 < userAddrEnd
  leaf : leafOf v.mem (v.currentPml4Phys &&& frameMask) x.1 = some (x.2,0xFFF)
  held : Allocated v.pmm x.2
  outside : Outside v.mem roots x.2

/-- The process in the slot runs, and its table, its address space and the log agree on the
pages it has. -/
structure Books (s : Kernel) (pid : ℕ) (roots : Set ℕ) (ps : List (ℕ × ℕ)) : Prop where
  current : s.current = some pid
  slot : pid < maxProcesses
  tables : Tables s.vmm.mem s.vmm.pmm roots
  root : rootOf s ∈ roots
  pml4 : s.vmm.currentPml4Phys ≠ 0
  entries : pairs (s.processes pid) = ps
  next : (s.processes pid).nextAllocVirt % 4096 = 0
  virts : (ps.map Prod.fst).Nodup
  frames : (ps.map Prod.snd).Nodup
  page : ∀ x ∈ ps, Page s.vmm roots x
  tallied : Tallied pid (ps.map Prod.snd) s.log
  stack : ∀ f, StackFrame (s.processes pid) f →
    Allocated s.vmm.pmm f ∧ eventsOn pid f s.log = []

variable {s : Kernel} {v v' : Vmm} {pid virt : ℕ} {roots : Set ℕ} {ps : List (ℕ × ℕ)} {x y : ℕ × ℕ}

lemma Page.ne_zero (h : Page v roots x) : x.2 ≠ 0 := by
  obtain ⟨i,-,hi,-⟩ := h.held
  rw [hi]
  exact frameAddr_ne_zero i

lemma Page.labels_ne (h : Page v roots x) (hpage : virt % 4096 = 0)
    (hhg : virt < userAddrEnd) (hne : x.1 ≠ virt) : labels x.1 ≠ labels virt := by
  have hx := h.aligned
  have hhg' := h.lt_end
  rw [userAddrEnd] at hhg hhg'
  rw [Ne,labels_eq_iff]
  omega

lemma Books.phys (h : Books s pid roots ps) (hx : x ∈ ps) : s.phys x.1 = x.2 := by
  have hpage := h.page x hx
  have hph := leafOf_physAddr hpage.leaf hpage.aligned
  rw [Kernel.phys,vmmGetPhysLocked_eq,if_neg h.pml4,hph]
  rfl

lemma Books.pid_eq (h : Books s pid roots ps) : currentPid s = some pid := by
  rw [currentPid,h.current]
  simp [h.slot]

lemma Books.recorded (h : Books s pid roots ps)
    (hfn : findPage (s.processes pid) virt = some j) : ∃ x ∈ ps, x.1 = virt := by
  obtain ⟨hj,hvr⟩ := findPage_some hfn
  refine ⟨((s.processes pid).userVaddrs j,(s.processes pid).userPages j),?_,hvr⟩
  rw [← h.entries,pairs]
  exact List.mem_map_of_mem (f := fun i => ((s.processes pid).userVaddrs i,
    (s.processes pid).userPages i)) (List.mem_range.mpr hj)

lemma Books.modify (h : Books s pid roots ps) (change : Process → Process)
    (hen : pairs (change (s.processes pid)) = ps)
    (hnx : (change (s.processes pid)).nextAllocVirt % 4096 = 0)
    (hst : StackFrame (change (s.processes pid)) = StackFrame (s.processes pid)) :
    Books (s.modify pid change) pid roots ps := by
  have hsl := modify_processes_self s pid change
  refine ⟨h.current,h.slot,h.tables,h.root,h.pml4,?_,?_,h.virts,h.frames,h.page,h.tallied,?_⟩
  · rw [hsl,hen]
  · rw [hsl,hnx]
  · rw [hsl,hst]
    exact h.stack

/-- The page of the process stays as it is while free frames are taken, for tables too. -/
theorem Page.extend (h : Page v roots x) (hrt : rootFrame v ∈ roots)
    (hext : Extended v v' roots) (hsm : physAddr v'.mem (rootFrame v) x.1 =
      physAddr v.mem (rootFrame v) x.1) : Page v' roots x := by
  obtain ⟨pt,hpt⟩ := leafOf_table h.leaf
  refine ⟨h.aligned,h.start_le,h.lt_end,?_,hext.pmm.allocated h.held,
    hext.outside h.outside h.held.not_free⟩
  rw [hext.current]
  refine leafOf_of_table (hext.old _ hrt _ _ hpt) ?_ h.aligned
  rw [hsm]
  exact leafOf_physAddr h.leaf h.aligned

lemma Page.give (htab : Tables v.mem v.pmm roots) (hrt : rootFrame v ∈ roots)
    (hpage : virt % 4096 = 0) (hlow : userAddrStart ≤ virt) (hhg : virt < userAddrEnd) {f : ℕ}
    (hf : (allocPage v).1 = f) (hne : f ≠ 0)
    (hmap : vmmMap (allocPage v).2 virt f (vmmPresent ||| vmmWritable ||| vmmUser) = (0,v')) :
    FreeFrame v.pmm f ∧ Extended v v' roots ∧ Page v' roots (virt,f) ∧ ∀ w, labels w ≠ labels virt →
      physAddr v'.mem (rootFrame v) w =
        physAddr v.mem (rootFrame v) w := by
  subst hf
  have hgot : AddressSpace.Got v.pmm (allocPage v).1 (allocPage v).2.pmm :=
    ⟨AddressSpace.allocPage_taken htab.sized hne⟩
  have hsh := hgot.shrunk htab.sized
  have htab' : Tables (allocPage v).2.mem (allocPage v).2.pmm roots := htab.shrink hsh
  rcases vmmMap_spec (s := (allocPage v).2) virt (allocPage v).1 htab' hrt
    (by decide : vmmPresent ||| vmmWritable ||| vmmUser < 8) with ⟨hbad,-⟩ | ⟨-,hmp⟩
  · rw [hmap] at hbad
    cases hbad
  rw [hmap] at hmp
  have hext : Extended v v' roots := by
    refine Extended.trans ?_ hmp.toExtended
    exact ⟨htab',fun _ _ _ _ hn => hn,fun _ _ _ _ hn => .inl hn,hsh,rfl,rfl⟩
  refine ⟨hgot.free,hext,⟨hpage,hlow,hhg,?_,hmp.pmm.allocated hgot.allocated,
    hmp.outside (htab.outside hgot.free) hgot.not_free⟩,fun w hw => ?_⟩
  · obtain ⟨pt,hpt⟩ := hmp.table
    have hof : virt &&& 0xFFF = 0 := (page_offset virt).trans hpage
    have hsl := hmp.page _ hrt virt
    rw [if_pos ⟨rfl,rfl⟩,hgot.free.aligned htab.sized,hof,Nat.or_zero] at hsl
    rw [hext.current]
    exact leafOf_of_table hpt hsl hpage
  · exact (hmp.page _ hrt w).trans (if_neg fun hc => hw hc.1)

lemma Books.give (h : Books s pid roots ps) (hpage : virt % 4096 = 0)
    (hlow : userAddrStart ≤ virt) (hhg : virt < userAddrEnd) (hph : s.phys virt = 0)
    (hlen : ps.length < userPagesMax) (hne : (allocPage s.vmm).1 ≠ 0)
    (hrc : (vmmMap (allocPage s.vmm).2 virt (allocPage s.vmm).1
      (vmmPresent ||| vmmWritable ||| vmmUser)).1 = 0) :
    Books (givePage (s.alloc pid).2 pid virt (s.alloc pid).1) pid roots
      (ps ++ [(virt,(s.alloc pid).1)]) ∧
    (givePage (s.alloc pid).2 pid virt (s.alloc pid).1).log =
      s.log ++ [.alloc pid (s.alloc pid).1] ∧
    ∀ w, labels w ≠ labels virt →
      (givePage (s.alloc pid).2 pid virt (s.alloc pid).1).phys w = s.phys w := by
  obtain ⟨v,hmap⟩ : ∃ v, vmmMap (s.alloc pid).2.vmm virt (s.alloc pid).1
    (vmmPresent ||| vmmWritable ||| vmmUser) = (0,v) := ⟨_,Prod.ext hrc rfl⟩
  obtain ⟨hfr,hext,hnp,hot⟩ :=
    Page.give (f := (s.alloc pid).1) h.tables h.root hpage hlow hhg rfl hne hmap
  obtain ⟨t,ht⟩ : ∃ t, t = givePage (s.alloc pid).2 pid virt (s.alloc pid).1 := ⟨_,rfl⟩
  have hlog : t.log = s.log ++ [.alloc pid (s.alloc pid).1] := by
    rw [ht]
    exact if_neg hne
  have hvmm : t.vmm = v := by
    rw [ht,givePage,Kernel.map,hmap]
    rfl
  have hsl : t.processes pid = (s.processes pid).record virt (s.alloc pid).1 := by
    rw [ht]
    exact modify_processes_self _ _ _
  have hcr : t.current = s.current := by rw [ht]; rfl
  rw [← hvmm] at hext hnp hot
  rw [← ht]
  generalize (s.alloc pid).1 = f at hfr hnp hlog hsl
  have hnew : virt ∉ ps.map Prod.fst := by
    intro hmem
    obtain ⟨x,hx,rfl⟩ := List.mem_map.mp hmem
    exact (h.page x hx).ne_zero ((h.phys hx).symm.trans hph)
  have hfs : f ∉ ps.map Prod.snd := by
    intro hmem
    obtain ⟨x,hx,rfl⟩ := List.mem_map.mp hmem
    exact (h.page x hx).held.not_free hfr
  have hcn : (s.processes pid).pageCount < userPagesMax := by
    rw [← pairs_length,h.entries]
    exact hlen
  rw [Process.record,if_pos hcn] at hsl
  refine ⟨⟨hcr.trans h.current,h.slot,hext.tables,?_,?_,?_,?_,?_,?_,?_,?_,?_⟩,hlog,?_⟩
  · rw [rootOf,hext.current]
    exact h.root
  · rw [hext.current]
    exact h.pml4
  · rw [← h.entries,← pairs_record hcn,hsl,Process.record,if_pos hcn]
  · rw [hsl]
    exact h.next
  · rw [List.map_append]
    exact h.virts.append (List.nodup_singleton _) (List.disjoint_singleton.mpr hnew)
  · rw [List.map_append]
    exact h.frames.append (List.nodup_singleton _) (List.disjoint_singleton.mpr hfs)
  · intro x hx
    rcases List.mem_append.mp hx with hx | hx
    · have hne : x.1 ≠ virt := fun hbad => hnew (hbad ▸ List.mem_map_of_mem hx)
      exact (h.page x hx).extend h.root hext
        (hot _ ((h.page x hx).labels_ne hpage hhg hne))
    · rw [List.mem_singleton.mp hx]
      exact hnp
  · rw [hlog,List.map_append]
    exact h.tallied.alloc hfs
  · intro g hg
    rw [hsl] at hg
    obtain ⟨hhl,hev⟩ := h.stack g hg
    have hgf : g ≠ f := fun hbad => hhl.not_free (hbad ▸ hfr)
    rw [hlog,eventsOn_alloc hgf]
    exact ⟨hext.pmm.allocated hhl,hev⟩
  · intro w hw
    rw [Kernel.phys,vmmGetPhysLocked_eq,hext.current,hot w hw,Kernel.phys,vmmGetPhysLocked_eq]

lemma Books.release (h : Books s pid roots ps) (hx : x ∈ ps) :
    Books (((s.unmap x.1).free pid x.2).modify pid fun p => Process.forget p x.1) pid roots
      (ps.filter fun y => y.1 ≠ x.1) := by
  have hpage := h.page x hx
  have hpl := hpage.held.inPool
  obtain ⟨hunc,htab,hcr,hpmm⟩ := vmmUnmap_uncovered x.1 h.tables h.root
  have hext := (vmmUnmap_spec x.1 h.tables h.root).toExtended
  have hmem : ∀ y ∈ ps, y ∈ ps.filter (fun y => y.1 ≠ x.1) ↔ y.2 ≠ x.2 := by
    intro y hy
    have hiff : y.1 = x.1 ↔ y.2 = x.2 := by
      constructor <;> intro heq
      · rw [List.inj_on_of_nodup_map h.virts hy hx heq]
      · rw [List.inj_on_of_nodup_map h.frames hy hx heq]
    simp [hy,hiff]
  obtain ⟨t,ht⟩ : ∃ t, t = ((s.unmap x.1).free pid x.2).modify pid fun p => Process.forget p x.1 :=
    ⟨_,rfl⟩
  have ht_mem : t.vmm.mem = (vmmUnmap s.vmm x.1).mem := by rw [ht]; rfl
  have ht_pmm : t.vmm.pmm = pmmFree s.vmm.pmm x.2 := by rw [ht,← hpmm]; rfl
  have ht_current : t.vmm.currentPml4Phys = s.vmm.currentPml4Phys := by rw [ht,← hcr]; rfl
  have ht_log : t.log = s.log ++ [.free pid x.2] := by rw [ht]; rfl
  have ht_self : t.processes pid = Process.forget (s.processes pid) x.1 := by
    rw [ht,modify_processes_self]
    rfl
  have ht_running : t.current = s.current := by rw [ht]; rfl
  rw [← ht]
  refine ⟨ht_running.trans h.current,h.slot,?_,?_,?_,?_,?_,?_,?_,?_,?_,?_⟩
  · rw [ht_mem,ht_pmm]
    exact htab.pmmFree (hext.outside hpage.outside hpage.held.not_free) hpl
  · rw [rootOf,ht_current]
    exact h.root
  · rw [ht_current]
    exact h.pml4
  · have hvr := h.virts
    rw [← h.entries] at hvr
    rw [ht_self,pairs_forget hvr,h.entries]
  · rw [ht_self,Process.forget]
    split <;> exact h.next
  · exact h.virts.sublist (List.filter_sublist.map _)
  · exact h.frames.sublist (List.filter_sublist.map _)
  · intro y hy
    have hy' := List.mem_of_mem_filter hy
    have hold := h.page y hy'
    have hnot : ¬ Covers s.vmm.mem (rootOf s) x.1 y.1 := by
      rintro ⟨l,hl,hbl⟩
      rw [rootOf,hpage.leaf] at hl
      cases hl
      have hlb := (sameBlock_page rfl).mp hbl
      exact hold.labels_ne hpage.aligned hpage.lt_end (by simpa using List.of_mem_filter hy)
        (hlb.eq_of_length rfl).symm
    refine ⟨hold.aligned,hold.start_le,hold.lt_end,?_,?_,?_⟩
    · rw [ht_mem,ht_current]
      exact (hunc.same _ h.root _ hnot).trans hold.leaf
    · rw [ht_pmm]
      exact hold.held.pmmFree h.tables.sized hpl ((hmem y hy').mp hy)
    · rw [ht_mem]
      exact hext.outside hold.outside hold.held.not_free
  · rw [ht_log]
    refine h.tallied.free (List.mem_map_of_mem hx) fun f => ?_
    constructor
    · intro hf
      obtain ⟨y,hy,rfl⟩ := List.mem_map.mp hf
      have hy' := List.mem_of_mem_filter hy
      exact ⟨List.mem_map_of_mem hy',(hmem y hy').mp hy⟩
    · rintro ⟨hf,hne⟩
      obtain ⟨y,hy,rfl⟩ := List.mem_map.mp hf
      exact List.mem_map_of_mem ((hmem y hy).mpr hne)
  · intro f hf
    have hst : StackFrame (s.processes pid) f := by
      rw [ht_self,Process.forget] at hf
      split at hf <;> exact hf
    obtain ⟨hhl,hev⟩ := h.stack f hst
    have hne : f ≠ x.2 := by
      rintro rfl
      exact h.tallied.ne_nil (List.mem_map_of_mem hx) hev
    rw [ht_pmm,ht_log,eventsOn_free hne]
    exact ⟨hhl.pmmFree h.tables.sized hpl hne,hev⟩

lemma Books.release_phys (h : Books s pid roots ps) (hx : x ∈ ps) {w : ℕ}
    (hw : w = x.1 ∨ s.phys w = 0) :
    (((s.unmap x.1).free pid x.2).modify pid fun p => Process.forget p x.1).phys w = 0 := by
  obtain ⟨hunc,-,hcr,-⟩ := vmmUnmap_uncovered x.1 h.tables h.root
  have hph : (((s.unmap x.1).free pid x.2).modify pid fun p => Process.forget p x.1).phys w =
      (s.unmap x.1).phys w := by
    rfl
  have hrt : rootOf (s.unmap x.1) = rootOf s := by
    rw [rootOf,rootOf,Kernel.unmap,hcr]
  have hcr' : (s.unmap x.1).vmm.currentPml4Phys = s.vmm.currentPml4Phys := hcr
  rw [hph,phys_leafOf,hrt,hcr',if_neg h.pml4]
  change (Leaf.at (leafOf (vmmUnmap s.vmm x.1).mem (rootOf s) w) w).getD 0 = 0
  by_cases hcov : Covers s.vmm.mem (rootOf s) x.1 w
  · have hno := hunc.at_root w hcov
    rw [rootOf,hno]
    rfl
  · have hsm := hunc.same _ h.root w hcov
    rcases hw with rfl | hzr
    · exact (hcov ⟨_,(h.page x hx).leaf,rfl⟩).elim
    · rw [phys_leafOf,if_neg h.pml4] at hzr
      rw [hsm,hzr]

end UserPages
end HarlinKernel
