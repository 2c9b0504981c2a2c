import HarlinKernel.TransitionSystem
import HarlinKernel.UserRecords
import HarlinKernel.ProcessCreation

/-! Runs of `sys_alloc`, `sys_free`, `sys_mmap` and `sys_munmap` by one process, up to its
`process_exit`: which frames they take, record and give back. -/
namespace HarlinKernel.UserPages

open PageAllocator PageTable ProcessTable TransitionSystem
open List (range' append_nil append_assoc)

inductive Call
  | alloc
  | free (virt : ℕ)
  | mmap (virt size : ℕ)
  | munmap (virt size : ℕ)

/-- The kernel, and the user pages with their frames that the calls have mapped for the process
and not released. -/
structure Session where
  kernel : Kernel
  ledger : List (ℕ × ℕ)

def Event.taken : Event → Option ℕ
  | .alloc _ frame => some frame
  | .free _ _ => none

/-- The frames that were taken between two states. -/
def framesTaken (s t : Kernel) : List ℕ := (t.log.drop s.log.length).filterMap Event.taken

def rangePages (virt size : ℕ) : List ℕ := (List.range (pagesOf size)).map (pageAt virt)

/-- A call by the process. What it has mapped or released is read off what it returns. -/
def act (s : Session) : Call → Option Session
  | .alloc => (sysAlloc s.kernel).map fun r =>
    ⟨r.2,if r.1 = 0 then s.ledger else s.ledger ++ [r.1.toNat].zip (framesTaken s.kernel r.2)⟩
  | .free virt =>
    let r := sysFree s.kernel virt
    some ⟨r.2,if r.1 = 0 then s.ledger.filter fun x => x.1 ≠ virt else s.ledger⟩
  | .mmap virt size =>
    let r := sysMmap s.kernel virt size
    some ⟨r.2,if r.1 = -1 then s.ledger
      else s.ledger ++ (rangePages virt size).zip (framesTaken s.kernel r.2)⟩
  | .munmap virt size =>
    let r := sysMunmap s.kernel virt size
    some ⟨r.2,if r.1 = 0 then s.ledger.filter fun x => x.1 ∉ rangePages virt size else s.ledger⟩

/-- A process without user pages runs; its kernel stack is allocated. -/
structure Entered (s : Session) : Prop where
  running : ∃ pid < maxProcesses, s.kernel.current = some pid ∧
    (s.kernel.processes pid).pageCount = 0 ∧
    (s.kernel.processes pid).nextAllocVirt % 4096 = 0 ∧
    ∀ f, StackFrame (s.kernel.processes pid) f → Allocated s.kernel.vmm.pmm f
  tables : ∃ roots, Tables s.kernel.vmm.mem s.kernel.vmm.pmm roots ∧ rootOf s.kernel ∈ roots
  pml4 : s.kernel.vmm.currentPml4Phys ≠ 0
  log : s.kernel.log = []
  ledger : s.ledger = []

def sessionRuns : System Session Call := actions Entered act

/-- The table of the process has the pages that the calls mapped and did not release, each
translated to its frame, and the frames are distinct and allocated. -/
structure Accounted (s : Session) : Prop where
  recorded : ∀ pid, s.kernel.current = some pid →
    ∀ x, x ∈ pairs (s.kernel.processes pid) ↔ x ∈ s.ledger
  mapped : ∀ x ∈ s.ledger, s.kernel.phys x.1 = x.2
  distinct : ∀ pid, s.kernel.current = some pid →
    ((pairs (s.kernel.processes pid)).map Prod.snd).Nodup
  allocated : ∀ x ∈ s.ledger, Allocated s.kernel.vmm.pmm x.2

/-- If the process exits now, each frame that the calls took was given back once for each time
it was taken. -/
def ReturnedOnce (s : Session) : Prop :=
  ∀ pid, s.kernel.current = some pid → ∀ f, Event.alloc pid f ∈ (processExit s.kernel).log →
    Settled pid f (processExit s.kernel).log

/-- The next frame can be mapped at the address. -/
def MapsPage (v : Vmm) (virt : ℕ) : Prop :=
  (vmmMap (allocPage v).2 virt (allocPage v).1 (vmmPresent ||| vmmWritable ||| vmmUser)).1 = 0

instance (v : Vmm) (virt : ℕ) : Decidable (MapsPage v virt) := inferInstanceAs (Decidable (_ = _))

/-- There is a frame for each page of a range, and all of them can be mapped. -/
def MapsRange (v : Vmm) (virt i : ℕ) : ℕ → Prop
  | 0 => True
  | n+1 => (allocPage v).1 ≠ 0 ∧ MapsPage v (virt+i*4096) ∧
    MapsRange (vmmMap (allocPage v).2 (virt+i*4096) (allocPage v).1
      (vmmPresent ||| vmmWritable ||| vmmUser)).2 virt (i+1) n

/-- Where `sys_alloc` starts its search. -/
def searchStart (p : Process) : ℕ :=
  if p.nextAllocVirt = 0 ∨ p.nextAllocVirt < allocStart ∨ userAddrEnd ≤ p.nextAllocVirt then
    allocStart
  else p.nextAllocVirt

/-- What `sys_mmap` checks of the range and its pages. -/
def MmapChecks (s : Kernel) (virt size : ℕ) : Prop :=
  virt % 4096 = 0 ∧
  ¬ (virt < userAddrStart ∨ userAddrEnd < (virt+size) % 2^64 ∨ (virt+size) % 2^64 < virt) ∧
  size ≠ 0 ∧ ∀ k < pagesOf size, s.phys (virt+k*4096) = 0

/-- `vmm_map` succeeds for each page; if a call of `sys_mmap` passes the checks and there is a
frame, then there are frames for all its pages, and entries of the table; and the pages that
`sys_munmap` finds translated are recorded. -/
def Orderly (s : Session) : Call → Prop
  | .alloc => ∀ pid virt, currentPid s.kernel = some pid →
    (s.kernel.processes pid).pageCount < 16 →
    searchPage s.kernel (searchStart (s.kernel.processes pid)) 769
      (searchStart (s.kernel.processes pid)) = .found virt →
    (allocPage s.kernel.vmm).1 ≠ 0 → MapsPage s.kernel.vmm virt
  | .free _ => True
  | .mmap virt size => ∀ pid, currentPid s.kernel = some pid →
    MmapChecks s.kernel virt size → (allocPage s.kernel.vmm).1 ≠ 0 →
      (s.kernel.processes pid).pageCount+pagesOf size ≤ userPagesMax ∧
        MapsRange s.kernel.vmm virt 0 (pagesOf size)
  | .munmap virt size => ∀ pid, currentPid s.kernel = some pid →
    virt % 4096 = 0 ∧ userAddrStart ≤ virt ∧ (virt+size) % 2^64 ≤ userAddrEnd →
      ∀ v ∈ rangePages virt size,
        findPage (s.kernel.processes pid) v = none → s.kernel.phys v = 0

variable {s t : Kernel} {pid virt size : ℕ} {roots : Set ℕ} {ps : List (ℕ × ℕ)}

lemma framesTaken_append {es : List Event} (h : t.log = s.log ++ es) :
    framesTaken s t = es.filterMap Event.taken := by
  rw [framesTaken,h,List.drop_left]

variable {fs : List ℕ} {start fuel v i n : ℕ}

lemma framesTaken_alloc (pid : ℕ) (h : t.log = s.log ++ fs.map (.alloc pid)) :
    framesTaken s t = fs := by
  rw [framesTaken_append h,List.filterMap_map]
  exact List.filterMap_some

lemma searchPage_succ (s : Kernel) (start fuel virt : ℕ) :
    searchPage s start (fuel+1) virt =
      if s.phys virt = 0 then .found virt
      else if wrapAlloc (virt+4096) = start then .full
      else searchPage s start fuel (wrapAlloc (virt+4096)) := rfl

lemma searchPage_modify (s : Kernel) (pid : ℕ) (change : Process → Process) (start fuel virt : ℕ) :
    searchPage (s.modify pid change) start fuel virt = searchPage s start fuel virt := by
  induction fuel generalizing virt with
  | zero => rfl
  | succ fuel ih =>
    rw [searchPage_succ,searchPage_succ,ih]
    rfl

/-- An address of a page that `sys_alloc` may give out. -/
structure Candidate (virt : ℕ) : Prop where
  aligned : virt % 4096 = 0
  start_le : allocStart ≤ virt
  lt_end : virt < userAddrEnd

lemma allocStart_candidate : Candidate allocStart := ⟨by decide,le_rfl,by decide⟩

lemma searchStart_candidate {p : Process} (h : p.nextAllocVirt % 4096 = 0) :
    Candidate (searchStart p) := by
  rw [searchStart]
  split
  · exact allocStart_candidate
  · exact ⟨h,by omega,by omega⟩

lemma Candidate.next (h : Candidate virt) : Candidate (wrapAlloc (virt+4096)) := by
  obtain ⟨hal,hlow,hhg⟩ := h
  rw [wrapAlloc]
  split
  · exact allocStart_candidate
  · exact ⟨by omega,by omega,by omega⟩

lemma searchPage_found (h : Candidate virt)
    (hfn : searchPage s start fuel virt = .found v) : Candidate v ∧ s.phys v = 0 := by
  induction fuel generalizing virt with
  | zero => cases hfn
  | succ fuel ih =>
    rw [searchPage_succ] at hfn
    split_ifs at hfn with hzr
    · cases hfn
      exact ⟨h,hzr⟩
    · exact ih h.next hfn

/-- The number of pages from one candidate up to another, around the end of the window. -/
def distance (virt start : ℕ) : ℕ :=
  (if virt < start then start-virt else start+(userAddrEnd-allocStart)-virt) / 4096

lemma distance_pos (h : Candidate virt) (hst : Candidate start) : 0 < distance virt start := by
  obtain ⟨hal,hlow,hhg⟩ := h
  obtain ⟨hal',hlow',hhg'⟩ := hst
  have hsp : userAddrEnd = allocStart+0x300000 := rfl
  rw [distance]
  split_ifs <;> omega

lemma distance_next (h : Candidate virt) (hst : Candidate start)
    (hne : wrapAlloc (virt+4096) ≠ start) :
    distance (wrapAlloc (virt+4096)) start < distance virt start := by
  obtain ⟨hal,hlow,hhg⟩ := h
  obtain ⟨hal',hlow',hhg'⟩ := hst
  have hsp : userAddrEnd = allocStart+0x300000 := rfl
  rw [wrapAlloc] at hne ⊢
  rw [distance,distance]
  split_ifs at hne ⊢ <;> omega

lemma searchPage_ends (hst : Candidate start) (h : Candidate virt)
    (hfu : distance virt start ≤ fuel) : searchPage s start fuel virt ≠ .running := by
  induction fuel generalizing virt with
  | zero => exact absurd (distance_pos h hst) (by omega)
  | succ fuel ih =>
    rw [searchPage_succ]
    split_ifs with hzr hfl
    · simp
    · simp
    · have hls := distance_next h hst hfl
      exact ih h.next (by omega)

lemma distance_self : distance start start = 768 := by
  have hst : userAddrEnd = allocStart+0x300000 := rfl
  rw [distance,if_neg (lt_irrefl start)]
  omega

lemma Books.sysAlloc (h : Books s pid roots ps)
    (hok : ∀ virt, (s.processes pid).pageCount < 16 →
      searchPage s (searchStart (s.processes pid)) 769 (searchStart (s.processes pid)) =
        .found virt → (allocPage s.vmm).1 ≠ 0 → MapsPage s.vmm virt) :
    ∃ r, sysAlloc s = some r ∧
      ((r.1 = 0 ∧ Books r.2 pid roots ps) ∨ ∃ v f, r.1 = (v : ℕ) ∧ v ≠ 0 ∧ framesTaken s r.2 = [f] ∧
          Books r.2 pid roots (ps ++ [(v,f)])) := by
  rw [UserPages.sysAlloc,h.pid_eq]
  dsimp only
  by_cases hfl : 16 ≤ (s.processes pid).pageCount
  · rw [if_pos hfl]
    exact ⟨_,rfl,.inl ⟨rfl,h⟩⟩
  rw [if_neg hfl]
  have hst := searchStart_candidate h.next
  have hen := searchPage_ends (s:=s) hst hst (distance_self.le.trans (by omega : 768 ≤ 769))
  have hok' := fun virt => hok virt (by omega)
  have hsr : (if (s.processes pid).nextAllocVirt = 0 ∨
      (s.processes pid).nextAllocVirt < allocStart ∨ userAddrEnd ≤ (s.processes pid).nextAllocVirt
      then allocStart else (s.processes pid).nextAllocVirt) = searchStart (s.processes pid) := rfl
  rw [hsr]
  generalize searchStart (s.processes pid) = start at hst hen hok' ⊢
  have hmv : ∀ next, next % 4096 = 0 → ∀ t, Books t pid roots ps →
      Books (t.modify pid fun p => { p with nextAllocVirt := next }) pid roots ps := by
    intro next hnx t ht
    exact ht.modify _ ht.entries hnx rfl
  have hfr := hmv start hst.aligned s h
  rw [searchPage_modify]
  generalize hrs : searchPage s start 769 start = found at hen hok' ⊢
  cases found with
  | running => exact (hen rfl).elim
  | full => exact ⟨_,rfl,.inl ⟨rfl,hfr⟩⟩
  | found v =>
    obtain ⟨hv,hph⟩ := searchPage_found hst hrs
    have hsc := hmv (wrapAlloc (v+4096)) hv.next.aligned _ hfr
    dsimp only
    obtain ⟨u,hu⟩ : ∃ u, u = (s.modify pid fun p => { p with nextAllocVirt := start }).modify pid
      fun p => { p with nextAllocVirt := wrapAlloc (v+4096) } := ⟨_,rfl⟩
    have hu_vmm : u.vmm = s.vmm := by rw [hu]; rfl
    have hu_log : u.log = s.log := by rw [hu]; rfl
    rw [← hu] at hsc ⊢
    rcases Kernel.alloc_cases hsc.tables.sized pid with hfa | ⟨hne,-,-⟩
    · rw [hfa,if_pos rfl]
      exact ⟨_,rfl,.inl ⟨rfl,hsc⟩⟩
    have hne' : (allocPage u.vmm).1 ≠ 0 := hne
    have hmp := hok' v rfl (hu_vmm ▸ hne')
    rw [← hu_vmm] at hmp
    have hlen : ps.length < userPagesMax := by
      rw [← h.entries,pairs_length,userPagesMax]
      omega
    obtain ⟨hgv,hlog,-⟩ := hsc.give hv.aligned
      ((by decide : userAddrStart ≤ allocStart).trans hv.start_le) hv.lt_end
      (by rw [Kernel.phys,hu_vmm]; exact hph) hlen hne' hmp
    rw [if_neg hne]
    refine ⟨_,rfl,.inr ⟨v,(u.alloc pid).1,rfl,?_,?_,hgv⟩⟩
    · have hpos : 0 < allocStart := by decide
      exact (hpos.trans_le hv.start_le).ne'
    · refine framesTaken_alloc pid ?_
      rw [hlog,hu_log]
      rfl

lemma Books.sysFree (h : Books s pid roots ps) (virt : ℕ) :
    ((sysFree s virt).1 ≠ 0 ∧ (sysFree s virt).2 = s) ∨ ((sysFree s virt).1 = 0 ∧
    Books (sysFree s virt).2 pid roots (ps.filter fun x => x.1 ≠ virt)) := by
  rw [UserPages.sysFree]
  split
  · exact .inl ⟨by simp,rfl⟩
  split
  · exact .inl ⟨by simp,rfl⟩
  dsimp only
  split
  · exact .inl ⟨by simp,rfl⟩
  rw [h.pid_eq]
  dsimp only
  cases hfn : findPage (s.processes pid) virt with
  | none => exact .inl ⟨by simp,rfl⟩
  | some j =>
    obtain ⟨x,hx,rfl⟩ := h.recorded hfn
    rw [if_neg (by simp),h.phys hx]
    exact .inr ⟨rfl,h.release hx⟩

lemma Books.mmapLoop (h : Books s pid roots ps) (hpage : virt % 4096 = 0)
    (hlow : userAddrStart ≤ virt) (hhg : virt+(i+n)*4096 ≤ userAddrEnd)
    (hph : ∀ k, i ≤ k → k < i+n → s.phys (virt+k*4096) = 0) (hlen : ps.length+n ≤ userPagesMax)
    (hmp : MapsRange s.vmm virt i n) :
    ∃ frames : List ℕ, frames.length = n ∧ (mmapLoop s pid virt i n).1 = virt ∧
      (mmapLoop s pid virt i n).2.log = s.log ++ frames.map (.alloc pid) ∧
      Books (mmapLoop s pid virt i n).2 pid roots
        (ps ++ ((range' i n).map fun k => virt+k*4096).zip frames) := by
  induction n generalizing s i ps with
  | zero => exact ⟨[],rfl,rfl,(append_nil _).symm,by simpa [UserPages.mmapLoop] using h⟩
  | succ n ih =>
    obtain ⟨hne,hmap,hrs⟩ := hmp
    have hhg' : virt+(i+1+n)*4096 ≤ userAddrEnd := by
      rw [Nat.add_assoc i,Nat.add_comm 1]
      exact hhg
    obtain ⟨hgv,hlog,hot⟩ := h.give (by omega : (virt+i*4096) % 4096 = 0) (by omega) (by omega)
      (hph i le_rfl (by omega)) (by omega) hne hmap
    rw [UserPages.mmapLoop]
    have hne' : (s.alloc pid).1 ≠ 0 := hne
    simp only [hne',if_false]
    have hvmm : (givePage (s.alloc pid).2 pid (virt+i*4096) (s.alloc pid).1).vmm =
        (vmmMap (allocPage s.vmm).2 (virt+i*4096) (allocPage s.vmm).1
          (vmmPresent ||| vmmWritable ||| vmmUser)).2 := rfl
    rw [← hvmm] at hrs
    have hph' : ∀ k, i+1 ≤ k → k < i+1+n →
        (givePage (s.alloc pid).2 pid (virt+i*4096) (s.alloc pid).1).phys (virt+k*4096) = 0 := by
      intro k hk hk'
      have hlb : labels (virt+k*4096) ≠ labels (virt+i*4096) := by
        rw [userAddrEnd] at hhg'
        rw [Ne,labels_eq_iff]
        omega
      rw [hot _ hlb]
      exact hph k (by omega) (by omega)
    have hlen' : (ps ++ [(virt+i*4096,(s.alloc pid).1)]).length+n ≤ userPagesMax := by
      rw [List.length_append,List.length_singleton]
      omega
    obtain ⟨frames,hcn,hrc,hlog',hbk⟩ := ih hgv hhg' hph' hlen' hrs
    refine ⟨(s.alloc pid).1 :: frames,by simp [hcn],hrc,?_,?_⟩
    · rw [hlog',hlog,append_assoc]
      rfl
    · rw [append_assoc] at hbk
      exact hbk

lemma sysMmap_cases (virt size : ℕ) (hpid : currentPid s = some pid) :
    sysMmap s virt size = (-1,s) ∨
    (MmapChecks s virt size ∧ sysMmap s virt size = mmapLoop s pid virt 0 (pagesOf size)) := by
  rw [sysMmap,hpid]
  split_ifs with hpage hrn hsz hmp
  · exact .inl rfl
  · exact .inl rfl
  · exact .inl rfl
  · exact .inl rfl
  refine .inr ⟨⟨not_not.mp hpage,hrn,hsz,fun k hk => ?_⟩,rfl⟩
  by_contra hbad
  exact hmp (List.any_eq_true.mpr ⟨k,List.mem_range.mpr hk,by simpa using hbad⟩)

lemma Books.sysMmap (h : Books s pid roots ps)
    (hok : MmapChecks s virt size → (allocPage s.vmm).1 ≠ 0 →
      (s.processes pid).pageCount+pagesOf size ≤ userPagesMax ∧
        MapsRange s.vmm virt 0 (pagesOf size)) :
    sysMmap s virt size = (-1,s) ∨
      ∃ frames : List ℕ, (sysMmap s virt size).1 ≠ -1 ∧
        framesTaken s (sysMmap s virt size).2 = frames ∧
        Books (sysMmap s virt size).2 pid roots (ps ++ (rangePages virt size).zip frames) := by
  rcases sysMmap_cases virt size h.pid_eq with hfl | ⟨hck,hlp⟩
  · exact .inl hfl
  have hok := hok hck
  obtain ⟨hpage,hrn,-,hph⟩ := hck
  have hhg : virt+pagesOf size*4096 ≤ userAddrEnd := by
    rw [userAddrEnd] at hrn ⊢
    rw [pagesOf]
    omega
  have hpg : (range' 0 (pagesOf size)).map (fun k => virt+k*4096) = rangePages virt size := by
    rw [rangePages,List.range_eq_range']
    refine List.map_congr_left fun k hk => ?_
    have hk' : k < pagesOf size := by simpa using hk
    rw [userAddrEnd] at hhg
    rw [pageAt,Nat.mod_eq_of_lt (by omega)]
  rw [hlp]
  cases hn : pagesOf size with
  | zero =>
    rw [rangePages,hn]
    exact .inr ⟨[],by simp [UserPages.mmapLoop],framesTaken_alloc pid (by
      simp [UserPages.mmapLoop]),by simpa [UserPages.mmapLoop] using h⟩
  | succ n =>
    rw [hn] at hok hph hhg hpg
    rcases Kernel.alloc_cases h.tables.sized pid with hfa | ⟨hne,-,-⟩
    · rw [UserPages.mmapLoop,hfa]
      exact .inl rfl
    obtain ⟨hrm,hmp⟩ := hok hne
    rw [← pairs_length,h.entries] at hrm
    obtain ⟨frames,-,hrc,hlog',hbk⟩ := h.mmapLoop hpage (by omega)
      ((Nat.zero_add (n+1)).symm ▸ hhg) (fun k _ hk => hph k (by omega)) hrm hmp
    rw [hpg] at hbk
    refine .inr ⟨frames,?_,framesTaken_alloc pid hlog',hbk⟩
    rw [hrc]
    omega

lemma Books.munmapPage (h : Books s pid roots ps) (hok : (∀ x ∈ ps, x.1 ≠ v) → s.phys v = 0) :
    Books (munmapPage s v) pid roots (ps.filter fun x => x.1 ≠ v) ∧ ∀ w, w = v ∨ s.phys w = 0 →
    (munmapPage s v).phys w = 0 := by
  rw [UserPages.munmapPage,h.pid_eq]
  dsimp only
  cases hfn : findPage (s.processes pid) v with
  | none =>
    have hot : ∀ x ∈ ps, x.1 ≠ v := h.entries ▸ findPage_none hfn
    have hzr := hok hot
    have hfr : Process.forget (s.processes pid) v = s.processes pid := by
      rw [Process.forget,hfn]
    have hfl : ps.filter (fun x => x.1 ≠ v) = ps :=
      List.filter_eq_self.mpr fun x hx => by simpa using hot x hx
    have hzr' : (s.modify pid fun p => Process.forget p v).phys v = 0 := hzr
    rw [unmapAndFree,if_pos hzr',hfl]
    refine ⟨h.modify _ (by rw [hfr,h.entries]) (by rw [hfr]; exact h.next)
      (by rw [hfr]),?_⟩
    rintro w (rfl | hw)
    · exact hzr
    · exact hw
  | some j =>
    obtain ⟨x,hx,rfl⟩ := h.recorded hfn
    have hph : (s.modify pid fun p => Process.forget p x.1).phys x.1 = x.2 := h.phys hx
    rw [unmapAndFree,if_neg (by rw [hph]; exact (h.page x hx).ne_zero),hph]
    exact ⟨h.release hx,fun w hw => h.release_phys hx hw⟩

lemma Books.munmapLoop (h : Books s pid roots ps)
    (hok : ∀ v ∈ (range' i n).map (pageAt virt), (∀ x ∈ ps, x.1 ≠ v) → s.phys v = 0) :
    Books (munmapLoop s virt i n) pid roots
      (ps.filter fun x => x.1 ∉ (range' i n).map (pageAt virt)) := by
  induction n generalizing s i ps with
  | zero =>
    have hfl : ps.filter (fun x => x.1 ∉ (range' i 0).map (pageAt virt)) = ps :=
      List.filter_eq_self.mpr (by simp)
    rw [hfl]
    exact h
  | succ n ih =>
    rw [List.range'_succ,List.map_cons] at hok ⊢
    obtain ⟨hpage,hgn⟩ := h.munmapPage (hok (pageAt virt i) (.head _))
    have hok' : ∀ v ∈ (range' (i+1) n).map (pageAt virt),
        (∀ x ∈ ps.filter (fun x => x.1 ≠ pageAt virt i), x.1 ≠ v) →
          (UserPages.munmapPage s (pageAt virt i)).phys v = 0 := by
      intro v hv hno
      refine hgn v ?_
      by_cases heq : v = pageAt virt i
      · exact .inl heq
      · refine .inr (hok v (.tail _ hv) ?_)
        rintro x hx rfl
        exact hno x (List.mem_filter.mpr ⟨hx,by simpa using heq⟩) rfl
    have hrs := ih hpage hok'
    have hfl : (ps.filter fun x => x.1 ≠ pageAt virt i).filter
        (fun x => x.1 ∉ (range' (i+1) n).map (pageAt virt)) =
        ps.filter fun x => x.1 ∉ pageAt virt i :: (range' (i+1) n).map (pageAt virt) := by
      rw [List.filter_filter]
      refine List.filter_congr fun x _ => ?_
      rw [← Bool.decide_and,decide_eq_decide,List.mem_cons,not_or,and_comm]
    rw [hfl] at hrs
    exact hrs

lemma Books.sysMunmap (h : Books s pid roots ps)
    (hok : virt % 4096 = 0 ∧ userAddrStart ≤ virt ∧ (virt+size) % 2^64 ≤ userAddrEnd →
      ∀ v ∈ rangePages virt size, findPage (s.processes pid) v = none → s.phys v = 0) :
    sysMunmap s virt size = (-1,s) ∨
    ((sysMunmap s virt size).1 = 0 ∧
      Books (sysMunmap s virt size).2 pid roots
        (ps.filter fun x => x.1 ∉ rangePages virt size)) := by
  by_cases hac : virt % 4096 = 0 ∧ userAddrStart ≤ virt ∧ (virt+size) % 2^64 ≤ userAddrEnd
  · have hrun := sysMunmap_accepts (s:=s) hac.1 hac.2.1 hac.2.2
    rw [hrun]
    refine .inr ⟨rfl,?_⟩
    have hrn : rangePages virt size = (range' 0 (pagesOf size)).map (pageAt virt) := by
      rw [rangePages,List.range_eq_range']
    rw [hrn] at hok ⊢
    refine h.munmapLoop fun v hv hot => hok hac v hv ?_
    cases hfn : findPage (s.processes pid) v with
    | none => rfl
    | some j =>
      obtain ⟨x,hx,hxv⟩ := h.recorded hfn
      exact (hot x hx hxv).elim
  · exact .inl (sysMunmap_rejects hac)

lemma freePages_log (s : Kernel) (pid : ℕ) (p : Process) (n : ℕ) :
    (freePages s pid p n).log =
      s.log ++ (((List.range n).map p.userPages).filter (· ≠ 0)).map (.free pid) := by
  induction n with
  | zero => simp [freePages]
  | succ n ih =>
    have hun : (if p.userVaddrs n ≠ 0 then (freePages s pid p n).unmap (p.userVaddrs n)
        else freePages s pid p n).log = (freePages s pid p n).log := by
      split <;> rfl
    rw [freePages,List.range_succ,List.map_append,List.filter_append,List.map_append,
      ← append_assoc,← ih,← hun]
    split
    · rename_i hne
      simp [Kernel.free,hne]
    · rename_i hzr
      simp [not_not.mp hzr]

lemma processExit_log (h : s.current = some pid) :
    ∃ es,
      (processExit s).log =
        s.log ++ ((((pairs (s.processes pid)).map Prod.snd).filter (· ≠ 0)).map (.free pid) ++ es) ∧
      ∀ e ∈ es, ∃ f, StackFrame (s.processes pid) f ∧ e = .free pid f := by
  rw [processExit,h]
  dsimp only
  obtain ⟨a,ha⟩ : ∃ a, a = s.modify pid fun p => { p with handleCount := 0 } := ⟨_,rfl⟩
  have ha_log : a.log = s.log := by rw [ha]; rfl
  have ha_pairs : pairs (a.processes pid) = pairs (s.processes pid) := by
    rw [ha,modify_processes_self]
    rfl
  have ha_stack : StackFrame (a.processes pid) = StackFrame (s.processes pid) := by
    rw [ha,modify_processes_self]
    rfl
  rw [← ha,← ha_log,← ha_pairs,← ha_stack]
  have hpg := freePages_log a pid (a.processes pid) (a.processes pid).pageCount
  have hfr : (pairs (a.processes pid)).map Prod.snd =
      (List.range (a.processes pid).pageCount).map (a.processes pid).userPages := by
    rw [pairs,List.map_map]
    rfl
  obtain ⟨-,hpr⟩ := gave_freePages a pid (a.processes pid) le_rfl
  obtain ⟨b,hb⟩ : ∃ b, b = processFreePages a pid := ⟨_,rfl⟩
  have hb_log : b.log = a.log ++ (((pairs (a.processes pid)).map Prod.snd).filter (· ≠ 0)).map
      (.free pid) := by
    rw [hb,processFreePages,hfr]
    exact hpg
  have hb_stack : StackFrame (b.processes pid) = StackFrame (a.processes pid) := by
    rw [hb,processFreePages,modify_processes_self,hpr]
    rfl
  have hst : ∃ es, (processFreeKernelStack b pid).log = b.log ++ es ∧
      ∀ e ∈ es, ∃ f, StackFrame (b.processes pid) f ∧ e = .free pid f := by
    rw [processFreeKernelStack]
    split
    · exact ⟨[],(append_nil _).symm,by simp⟩
    · exact (gave_freeStack b pid _ le_rfl).1.log
  obtain ⟨es,hes,hfe⟩ := hst
  rw [← hb]
  refine ⟨es,?_,hb_stack ▸ hfe⟩
  rw [← append_assoc,← hb_log,← hes]
  rfl

lemma eventsOn_frees (h : fs.Nodup) (pid f : ℕ) :
    eventsOn pid f (fs.map (.free pid)) = if f ∈ fs then [.free pid f] else [] := by
  induction fs with
  | nil => rfl
  | cons g fs ih =>
    rw [List.nodup_cons] at h
    have hcn : eventsOn pid f ((g :: fs).map (.free pid)) =
        eventsOn pid f [.free pid g] ++ eventsOn pid f (fs.map (.free pid)) :=
      eventsOn_append pid f [.free pid g] _
    rw [hcn,ih h.2]
    by_cases heq : g = f
    · subst heq
      simp [eventsOn,h.1]
    · simp [eventsOn,heq,Ne.symm heq]

lemma Books.exit (h : Books s pid roots ps) {f : ℕ}
    (htk : .alloc pid f ∈ (processExit s).log) : Settled pid f (processExit s).log := by
  obtain ⟨es,hlog,hes⟩ := processExit_log h.current
  have hfl : ((pairs (s.processes pid)).map Prod.snd).filter (· ≠ 0) = ps.map Prod.snd := by
    rw [h.entries]
    refine List.filter_eq_self.mpr fun g hg => ?_
    obtain ⟨x,hx,rfl⟩ := List.mem_map.mp hg
    simpa using (h.page x hx).ne_zero
  rw [hfl] at hlog
  rw [hlog] at htk ⊢
  have hmem : .alloc pid f ∈ s.log := by
    rcases List.mem_append.mp htk with hmem | hmem
    · exact hmem
    · rcases List.mem_append.mp hmem with hmem | hmem
      · simp at hmem
      · obtain ⟨g,-,hg⟩ := hes _ hmem
        cases hg
  have hne : eventsOn pid f s.log ≠ [] :=
    List.ne_nil_of_mem (List.mem_filter.mpr ⟨hmem,by simp⟩)
  have hst : eventsOn pid f es = [] := by
    refine List.filter_eq_nil_iff.mpr fun e he => ?_
    obtain ⟨g,hg,rfl⟩ := hes e he
    have hgf : g ≠ f := by
      rintro rfl
      exact hne (h.stack g hg).2
    simp [hgf]
  rw [Settled,← append_assoc,eventsOn_append _ _ _ es,hst,append_nil,eventsOn_append,
    eventsOn_frees h.frames]
  obtain ⟨n,hn⟩ := h.tallied f
  rw [hn]
  by_cases hf : f ∈ ps.map Prod.snd
  · refine ⟨n+1,?_⟩
    rw [if_pos hf,if_pos hf,List.replicate_succ',List.flatten_append,append_assoc]
    rfl
  · exact ⟨n,by rw [if_neg hf,if_neg hf,append_nil,append_nil]⟩

section Runs

variable {s t : Session} {c : Call}

lemma Books.entered (h : Entered s) : ∃ pid roots, Books s.kernel pid roots s.ledger := by
  obtain ⟨pid,hpid,hcr,hcn,hnx,hst⟩ := h.running
  obtain ⟨roots,htab,hrt⟩ := h.tables
  refine ⟨pid,roots,?_⟩
  rw [h.ledger]
  refine ⟨hcr,hpid,htab,hrt,h.pml4,?_,hnx,by simp,by simp,by simp,?_,?_⟩
  · rw [pairs,hcn]
    rfl
  · rw [h.log]
    exact fun f => ⟨0,rfl⟩
  · intro f hf
    rw [h.log]
    exact ⟨hst f hf,rfl⟩

lemma Books.act (h : Books s.kernel pid roots s.ledger) (hok : Orderly s c) :
    ∃ t, act s c = some t ∧ Books t.kernel pid roots t.ledger := by
  cases c with
  | alloc =>
    obtain ⟨r,hr,⟨hzr,hbk⟩ | ⟨v,f,hv,hne,hfr,hbk⟩⟩ :=
      h.sysAlloc fun virt => hok pid virt h.pid_eq
    · refine ⟨_,by rw [UserPages.act,hr]; rfl,?_⟩
      dsimp only
      rw [if_pos hzr]
      exact hbk
    · refine ⟨_,by rw [UserPages.act,hr]; rfl,?_⟩
      dsimp only
      rw [if_neg (by omega),hfr,hv]
      exact hbk
  | free virt =>
    refine ⟨_,rfl,?_⟩
    dsimp only
    rcases h.sysFree virt with ⟨hrc,hsm⟩ | ⟨hrc,hbk⟩
    · rw [if_neg hrc,hsm]
      exact h
    · rw [if_pos hrc]
      exact hbk
  | mmap virt size =>
    refine ⟨_,rfl,?_⟩
    dsimp only
    rcases h.sysMmap (hok pid h.pid_eq) with hfl | ⟨frames,hrc,hfr,hbk⟩
    · rw [hfl,if_pos rfl]
      exact h
    · rw [if_neg hrc,hfr]
      exact hbk
  | munmap virt size =>
    refine ⟨_,rfl,?_⟩
    dsimp only
    rcases h.sysMunmap (hok pid h.pid_eq) with hfl | ⟨hrc,hbk⟩
    · rw [hfl,if_neg (by simp)]
      exact h
    · rw [if_pos hrc]
      exact hbk

lemma Books.accounted (h : Books s.kernel pid roots s.ledger) : Accounted s := by
  have hpid : ∀ i, s.kernel.current = some i → i = pid :=
    fun i hi => Option.some.inj (hi.symm.trans h.current)
  refine ⟨?_,fun x hx => h.phys hx,?_,fun x hx => (h.page x hx).held⟩
  · intro i hi x
    rw [hpid i hi,h.entries]
  · intro i hi
    rw [hpid i hi,h.entries]
    exact h.frames

end Runs

/-- A process that has just started. -/
def freshSession (v : Vmm) : Session := ⟨⟨v,fun _ => Process.zero,some 0,[]⟩,[]⟩

lemma freshSession_entered {v : Vmm} (htab : Tables v.mem v.pmm {0x20000})
    (hpml4 : v.currentPml4Phys = 0x20000) : Entered (freshSession v) := by
  have hrt : rootOf (freshSession v).kernel = 0x20000 := by
    change v.currentPml4Phys &&& frameMask = _
    rw [hpml4]
    decide
  refine ⟨⟨0,by decide,rfl,rfl,rfl,?_⟩,⟨{0x20000},htab,hrt⟩,?_,rfl,rfl⟩
  · rintro f ⟨j,hj,-⟩
    exact absurd hj (Nat.not_lt_zero j)
  · change v.currentPml4Phys ≠ 0
    rw [hpml4]
    decide

lemma emptyTables_entered : Entered (freshSession emptyTables) :=
  freshSession_entered emptyTables_tables rfl

/-- The tables of the boot code and one free frame. -/
def scarceTables : Vmm :=
  { AddressSpace.bootState (fun _ _ => 0)
      { emptyTables.pmm with bitmap := fun i => if i = 0 then 0xFE else 0xFF } with
    currentPml4Phys := AddressSpace.bootPml4 }

end HarlinKernel.UserPages
