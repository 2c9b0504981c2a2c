import HarlinKernel.FatDirectory

/-! Runs of the operations on files and directories of a volume without errors: the sectors that
they write, as long as the cluster numbers read back from directory entries can be trusted. -/
namespace HarlinKernel.Fat32

open TransitionSystem
open Option (map_eq_some_iff)

section Proper

variable {g : Geometry} {fat fat' : ℕ → ℕ} {c x : ℕ} {l : List ℕ}

/-- The cluster is one of the data area, and from it the FAT leads to an end. -/
def Proper (g : Geometry) (fat : ℕ → ℕ) (c : ℕ) : Prop := ∃ l, FatChain g fat c (c :: l)

lemma FatChain.proper (h : FatChain g fat c l) (hx : x ∈ l) : Proper g fat x := by
  obtain ⟨-,l₂,-,hch⟩ := h.suffix hx
  exact ⟨l₂,hch⟩

/-- Chains stay proper if each entry in use is kept or leads to an end in the new FAT. -/
theorem Proper.mono (hg : g.Sound) (h : Proper g fat c)
    (hst : ∀ x, g.Valid x → fat x ≠ 0 → fat' x = fat x ∨ Proper g fat' x) : Proper g fat' c := by
  obtain ⟨l,h⟩ := h
  induction l generalizing c with
  | nil =>
    rcases hst c (h.valid c (by simp)) (h.cell_ne_zero (by simp)) with hsm | hpr
    · exact ⟨[],h.congr (by simpa using hsm)⟩
    · exact hpr
  | cons y l ih =>
    rcases hst c (h.valid c (by simp)) (h.cell_ne_zero (by simp)) with hsm | hpr
    · have htl := h.tail
      have hy : follow fat c = y := htl.head
      rw [hy] at htl
      obtain ⟨m,hm⟩ := ih htl
      refine ⟨y :: m,hm.cons hg (h.valid c (by simp)) ?_⟩
      rw [follow,hsm]
      exact hy
    · exact hpr

end Proper

variable {short : List UInt8} {attr : UInt8} {first : ℕ → Buffer} {new : ℕ × ℕ × ℕ}
  {needed fuel len : ℕ} {r : Bool × Device × File} {src : Buffer} {f : File}

section Safe

variable {g : Geometry} {d e : Device} {f f' : File} {l : List ℕ}

/-- A change that stays within bounds and cuts no chain. -/
structure Safe (g : Geometry) (d e : Device) : Prop where
  bounded : Bounded g d e
  proper : ∀ c, Proper g (cell g d.byte) c → Proper g (cell g e.byte) c

lemma Safe.refl (d : Device) : Safe g d d := ⟨.refl d,fun _ h => h⟩

lemma Safe.trans {k : Device} (h : Safe g d e) (h' : Safe g e k) : Safe g d k :=
  ⟨h.bounded.trans h'.bounded,fun c hc => h'.proper c (h.proper c hc)⟩

lemma Safe.tick (h : Safe g d e) (n : ℕ) : Safe g d (e.tick n) := ⟨h.bounded.tick n,h.proper⟩

lemma DataOnly.safe (hg : g.Sound) (h : DataOnly g d e) : Safe g d e :=
  ⟨h.bounded hg,fun _ hc => hc.mono hg fun _ hx _ => .inl (h.cell hg hx.2)⟩

lemma Added.safe (hg : g.Sound) (h : Added g l short attr first d new e) : Safe g d e := by
  refine ⟨h.bounded,fun c hc => hc.mono hg fun x hx hne => .inl ?_⟩
  rw [h.cell x hx.2,if_neg]
  rintro rfl
  exact hne h.free.2

lemma Added.proper (hg : g.Sound) (h : Added g l short attr first d new e) :
    Proper g (Fat32.cell g e.byte) new.1 := by
  have hend : fat32Eoc ≤ Fat32.cell g e.byte new.1 := by
    rw [h.cell _ h.free.1.2,if_pos rfl]
  refine ⟨[],FatChain.cons hg h.free.1 ⟨?_,by simp⟩ rfl⟩
  simp [LinkedTree.Chain,follow,hend]

lemma ExtendedFile.safe (hg : g.Sound) {new : List ℕ}
    (h : ExtendedFile g d f l needed new r) : Safe g d r.2.1 := by
  refine ⟨h.grown.only.bounded,fun c hc => hc.mono hg fun x hx hne => ?_⟩
  by_cases hl : x ∈ l
  · have hmem : x ∈ l ++ new := List.mem_append_left new hl
    exact .inr ((h.chain (List.ne_nil_of_mem hmem)).proper hmem)
  · refine .inl (h.grown.others x hx.2 (fun hnew => ?_) hl)
    exact hne (h.grown.free x hnew).2

/-- The clusters of a handle: what it can lead `Harlin_Write` to. -/
structure Held (g : Geometry) (fat : ℕ → ℕ) (f : File) : Prop where
  start : f.startCluster = 0 ∨ Proper g fat f.startCluster
  current : f.currentCluster = 0 ∨ fat32Eoc ≤ f.currentCluster ∨ Proper g fat f.currentCluster
  dir : f.dirCluster = 0 ∨ g.Valid f.dirCluster

lemma Held.mono {fat fat' : ℕ → ℕ} (h : Held g fat f)
    (hpr : ∀ c, c = f.startCluster ∨ c = f.currentCluster → Proper g fat c → Proper g fat' c) :
    Held g fat' f :=
  ⟨h.start.imp_right (hpr _ (.inl rfl)),
    h.current.imp_right (Or.imp_right (hpr _ (.inr rfl))),h.dir⟩

lemma Held.chain {fat : ℕ → ℕ} (h : Held g fat f) :
    ∃ l, (l = [] → f.startCluster = 0) ∧ (l ≠ [] → FatChain g fat f.startCluster l) := by
  rcases h.start with hzr | ⟨l,hl⟩
  · exact ⟨[],fun _ => hzr,fun hne => absurd rfl hne⟩
  · exact ⟨f.startCluster :: l,fun hnil => by simp at hnil,fun _ => hl⟩

lemma nextCluster_tick (d : Device) (c : ℕ) : ∃ n, (nextCluster g d c).2 = d.tick n := by
  obtain ⟨n,hn⟩ := ataReadSectors_tick d (g.fatStartSector+fatSector c) 1
  refine ⟨n,?_⟩
  rw [nextCluster,readSector]
  split <;> exact hn

lemma writeFileLoop_reliable (fuel : ℕ) (src : Buffer) (remaining : ℕ) (hd : d.Reliable) :
    (writeFileLoop g fuel d f src remaining).1 = true ∧
      (writeFileLoop g fuel d f src remaining).2.2.1.Reliable := by
  induction fuel generalizing d f src remaining with
  | zero => exact ⟨rfl,hd⟩
  | succ fuel ih =>
    rw [writeFileLoop]
    split_ifs with hgo
    · obtain ⟨chunk,hch⟩ : ∃ n, n = min (g.clusterSize-f.position % g.clusterSize) remaining :=
        ⟨_,rfl⟩
      obtain ⟨buf,n,hrd⟩ : ∃ buf n, (if chunk < g.clusterSize then
          readCluster g d f.currentCluster else (some fun _ => 0,d)) = (some buf,d.tick n) := by
        split_ifs
        · exact ⟨_,_,readCluster_ok hd _⟩
        · exact ⟨_,0,rfl⟩
      simp only [← hch,hrd]
      rw [writeCluster_ok (d:=d.tick n) hd]
      simp only [if_true]
      obtain ⟨e,he⟩ : ∃ e, e = stored g (d.tick n) f.currentCluster
        (copyBytes buf (f.position % g.clusterSize) src chunk) := ⟨_,rfl⟩
      have hrl : e.Reliable := by
        rw [he]
        exact (hd.tick n).stored _ _
      rw [← he]
      split_ifs
      · obtain ⟨k,hk⟩ := nextCluster_tick (g:=g) e f.currentCluster
        rw [hk]
        exact ih (d:=e.tick k) (fun i => src (i+chunk)) (remaining-chunk) (hrl.tick k)
      · exact ih (d:=e) (fun i => src (i+chunk)) (remaining-chunk) hrl
    · exact ⟨rfl,hd⟩

lemma updateDirectorySize_reliable (hd : d.Reliable) : (updateDirectorySize g d f).1 = true := by
  rw [updateDirectorySize]
  split_ifs
  · rfl
  · rw [readCluster_ok hd]
    simp only
    rw [writeCluster_ok (d:=d.tick g.sectorsPerCluster) hd]

lemma ExtendedFile.held (hg : g.Sound) {new : List ℕ} (hf : Held g (cell g d.byte) f)
    (h : ExtendedFile g d f l needed new r) : Held g (cell g r.2.1.byte) r.2.2 := by
  have hkp := hf.mono fun c _ => (h.safe hg).proper c
  have hst : l ++ new ≠ [] → Proper g (cell g r.2.1.byte) r.2.2.startCluster := by
    intro hne
    exact (h.chain hne).proper ((h.chain hne).start_mem hne)
  rcases h.file with ⟨-,hnew,hfl⟩ | ⟨-,hfl⟩
  · have hpr := hst (by simp [hnew])
    refine ⟨.inr hpr,.inr (.inr ?_),?_⟩
    · rw [hfl]
      exact hpr
    · rw [hfl]
      exact hkp.dir
  · rw [hfl]
    exact hkp

lemma Held.cursorReset {fat : ℕ → ℕ} (h : Held g fat f) (hst : Proper g fat f.startCluster) :
    Proper g fat (cursorReset f).currentCluster := by
  rw [Fat32.cursorReset]
  split_ifs with hrs
  · exact hst
  · rw [not_or] at hrs
    rcases h.current with hzr | hend | hpr
    · exact absurd hzr hrs.1
    · exact absurd hend hrs.2
    · exact hpr

lemma writeExtended_safe (hg : g.Sound) {orig : File} {r : Option ℕ} (hd : d.Reliable)
    (hf : Held g (cell g d.byte) f) (hst : Proper g (cell g d.byte) f.startCluster)
    (hr : writeExtended g fuel d orig f src len = some (r,e,f')) : Safe g d e ∧
    Held g (cell g e.byte) f' := by
  obtain ⟨m,hm⟩ := hf.cursorReset hst
  obtain ⟨⟨hdt,-⟩,hsm,hat⟩ := writeFileLoop_spec (f:=cursorReset f) hg len src len hd.fatServed hm
    (.inl (by simp))
  obtain ⟨htr,hd'⟩ := writeFileLoop_reliable (g:=g) (f:=cursorReset f) len src len hd
  rw [writeExtended] at hr
  generalize writeFileLoop g len d (cursorReset f) src len = w at hdt hsm hat htr hd' hr
  have hdir : w.2.2.2.dirCluster = 0 ∨ g.Valid w.2.2.2.dirCluster := by
    rw [hsm.dirCluster,(cursorReset_same f).dirCluster]
    exact hf.dir
  obtain ⟨f₁,hf₁⟩ : ∃ f₁ : File, f₁ = { w.2.2.2 with size := max w.2.2.2.size w.2.2.2.position } :=
    ⟨_,rfl⟩
  have hdir₁ : f₁.dirCluster = 0 ∨ g.Valid f₁.dirCluster := by
    rw [hf₁]
    exact hdir
  have hst₁ : f₁.startCluster = f.startCluster := by
    rw [hf₁]
    exact hsm.startCluster.trans (cursorReset_same f).startCluster
  have hcr₁ : f₁.currentCluster = w.2.2.2.currentCluster := by rw [hf₁]
  have hup : DataOnly g w.2.2.1 (updateDirectorySize g w.2.2.1 f₁).2 :=
    updateDirectorySize_dataOnly hg hdir₁
  have htr' : (updateDirectorySize g w.2.2.1 f₁).1 = true := updateDirectorySize_reliable hd'
  simp only [htr,if_true,← hf₁,htr',Option.some.injEq,Prod.mk.injEq] at hr
  obtain ⟨-,rfl,rfl⟩ := hr
  have hsf := (hdt.trans hup).safe hg
  refine ⟨hsf,?_,?_,hdir₁⟩
  · rw [hst₁]
    exact .inr (hsf.proper _ hst)
  · rw [hcr₁]
    rcases hat with hmem | hend
    · exact .inr (.inr (hsf.proper _ (hm.proper hmem)))
    · exact .inr (.inl hend)

lemma harlinWrite_safe (hg : g.Sound) {r : Option ℕ} (hd : d.Reliable)
    (hf : Held g (cell g d.byte) f) (hr : harlinWrite g fuel d f src len = some (r,e,f')) :
    Safe g d e ∧ Held g (cell g e.byte) f' := by
  rw [harlinWrite] at hr
  split_ifs at hr with hlen
  · cases hr
    exact ⟨.refl d,hf⟩
  obtain ⟨l,hem,hch⟩ := hf.chain
  obtain ⟨new,hext⟩ := extendFileClusters_spec hg (neededClusters g f len) hd.fatServed hem hch
  have hnd : (f.position+len+g.clusterSize-1) % 2^32/g.clusterSize = neededClusters g f len :=
    rfl
  simp only [hnd] at hr
  have hsf := hext.safe hg
  have hhl := hext.held hg hf
  split_ifs at hr with hok
  · obtain ⟨-,hne⟩ := hext.ne_nil hok
    have hst := (hext.chain hne).proper ((hext.chain hne).start_mem hne)
    obtain ⟨hwr,hf'⟩ := writeExtended_safe hg (hd.of_ok hsf.bounded.ok) hhl hst hr
    exact ⟨hsf.trans hwr,hf'⟩
  · simp only [Option.some.injEq,Prod.mk.injEq] at hr
    rw [hr.2] at hsf hhl
    exact ⟨hsf,hhl⟩

end Safe

variable {s₀ : Session}

section Runs

/-- The volume and the handles of its users. -/
structure Session where
  vol : Volume
  handle : ℕ → File

inductive Call
  | mkdir (name : PlainName)
  | cd (name : PlainName)
  | create (name : PlainName) (handle : ℕ)
  | write (handle : ℕ) (src : Buffer) (len : ℕ)
  | deleteFile (name : PlainName)

/-- A call, with a bound on the rounds of its loops. -/
def act (fuel : ℕ) (s : Session) : Call → Option Session
  | .mkdir name => (harlinMkdir fuel s.vol name).map fun r => { s with vol := r.2 }
  | .cd name => (harlinCd fuel s.vol name).map fun r => { s with vol := r.2 }
  | .create name h =>
    (harlinCreate fuel s.vol name (s.handle h)).map fun r =>
      ⟨r.2.1,Function.update s.handle h r.2.2⟩
  | .write h src len =>
    (harlinWrite s.vol.geo fuel s.vol.dev (s.handle h) src len).map fun r =>
      ⟨s.vol.setDev r.2.1,Function.update s.handle h r.2.2⟩
  | .deleteFile name => (harlinDeleteFile fuel s.vol name).map fun r => { s with vol := r.2 }

/-- The calls that return, from a given state on. -/
def fileRuns (s₀ : Session) : System Session Call where
  init s := s = s₀
  step s a t := ∃ fuel, act fuel s a = some t

/-- The entries of the FAT in a state. -/
def Session.fat (s : Session) : ℕ → ℕ := cell s.vol.geo s.vol.dev.byte

/-- The name is found in the current directory. -/
def Session.Finds (s : Session) (name : List UInt8) (f : Found) : Prop :=
  ∃ fuel e, findEntryInDir s.vol.geo name fuel s.vol.dev s.vol.currentDirCluster = some (some f,e)

/-- The clusters from which the operations start to follow the FAT. -/
def Session.Root (s : Session) (c : ℕ) : Prop :=
  c = s.vol.currentDirCluster ∨
    ∃ h, c = (s.handle h).startCluster ∨ c = (s.handle h).currentCluster

/-- The cluster numbers in directory entries can be trusted: a directory that is entered has a
chain, and so has a file that is deleted, with no cluster that is still followed. -/
def Trusted (s : Session) : Call → Prop
  | .cd name => ∀ f, s.Finds name f → f.attr &&& 0x10 ≠ 0 →
      Proper s.vol.geo s.fat f.fileCluster
  | .deleteFile name => ∀ f, s.Finds name f → f.attr &&& 0x10 = 0 →
      2 ≤ f.fileCluster → f.fileCluster < fat32Eoc →
      ∃ l, FatChain s.vol.geo s.fat f.fileCluster (f.fileCluster :: l) ∧
        ∀ c m, s.Root c → FatChain s.vol.geo s.fat c m → ∀ x ∈ m, x ∉ f.fileCluster :: l
  | _ => True

/-- A volume without errors whose directories and open files have chains. -/
structure Session.WellFormed (s : Session) : Prop where
  sound : s.vol.geo.Sound
  reliable : s.vol.dev.Reliable
  current : Proper s.vol.geo s.fat s.vol.currentDirCluster
  handles : ∀ h, Held s.vol.geo s.fat (s.handle h)

variable {s s' : Session} {v : Volume} {e : Device} {fuel : ℕ} {r : ℤ}

lemma Session.WellFormed.setDev (h : s.WellFormed) (hb : Bounded s.vol.geo s.vol.dev e)
    (hp : ∀ c, s.Root c → Proper s.vol.geo s.fat c → Proper s.vol.geo (cell s.vol.geo e.byte) c) :
    ({ s with vol := s.vol.setDev e } : Session).WellFormed :=
  ⟨h.sound,h.reliable.of_ok hb.ok,hp _ (.inl rfl) h.current,
    fun k => (h.handles k).mono fun c hc => hp c (.inr ⟨k,hc⟩)⟩

lemma Session.WellFormed.setHandle (h : s.WellFormed) (k : ℕ) (hf : Held s.vol.geo s.fat f) :
    ({ s with handle := Function.update s.handle k f } : Session).WellFormed := by
  refine ⟨h.sound,h.reliable,h.current,fun j => ?_⟩
  change Held s.vol.geo s.fat (Function.update s.handle k f j)
  by_cases hj : j = k
  · subst hj
    rw [Function.update_self]
    exact hf
  · rw [Function.update_of_ne hj]
    exact h.handles j

lemma harlinMkdir_safe (h : s.WellFormed) (name : PlainName)
    (hr : harlinMkdir fuel s.vol name = some (r,v)) :
    ∃ e, v = s.vol.setDev e ∧ Safe s.vol.geo s.vol.dev e := by
  obtain ⟨l,hl⟩ := h.current
  rw [harlinMkdir,resolvePath_plain] at hr
  split_ifs at hr with hnil
  · cases hr
    exact ⟨_,rfl,.refl _⟩
  simp only at hr
  split at hr
  · cases hr
    exact ⟨_,rfl,.refl _⟩
  split at hr
  · cases hr
  · rename_i f d₁ hfn
    cases hr
    obtain ⟨⟨n,rfl⟩,-⟩ :=
      findEntryInDir_spec h.sound fuel h.reliable (.of_chain h.sound hl) hfn
    exact ⟨_,rfl,(Safe.refl _).tick n⟩
  rename_i d₁ hfn
  obtain ⟨⟨n,rfl⟩,-⟩ :=
    findEntryInDir_spec h.sound fuel h.reliable (.of_chain h.sound hl) hfn
  obtain ⟨⟨res,d₂⟩,hadd,heq⟩ := map_eq_some_iff.mp hr
  cases heq
  refine ⟨d₂,rfl,((Safe.refl s.vol.dev).tick n).trans ?_⟩
  rcases addEntry_spec h.sound (h.reliable.tick n) hl hadd with ⟨-,k,rfl⟩ | ⟨new,-,had⟩
  · exact (Safe.refl _).tick k
  · exact had.safe h.sound

lemma harlinCreate_safe (h : s.WellFormed) (name : PlainName)
    {out f' : File} (hout : Held s.vol.geo s.fat out)
    (hr : harlinCreate fuel s.vol name out = some (r,v,f')) : ∃ e, v = s.vol.setDev e ∧
    Safe s.vol.geo s.vol.dev e ∧ Held s.vol.geo (cell s.vol.geo e.byte) f' := by
  obtain ⟨l,hl⟩ := h.current
  rcases harlinCreate_spec h.sound h.reliable hl name hr with
    ⟨-,rfl,n,rfl⟩ | ⟨-,short,new,e,rfl,had,rfl⟩
  · exact ⟨_,rfl,(Safe.refl _).tick n,hout⟩
  · have hpr := had.proper h.sound
    exact ⟨e,rfl,had.safe h.sound,.inr hpr,.inr (.inr hpr),
      .inr (hl.valid _ had.slot.1)⟩

lemma harlinCd_safe (h : s.WellFormed) (name : PlainName) (htr : Trusted s (.cd name))
    (hr : harlinCd fuel s.vol name = some (r,v)) :
    ∃ n c, v = { s.vol.setDev (s.vol.dev.tick n) with currentDirCluster := c } ∧
      Proper s.vol.geo s.fat c := by
  obtain ⟨l,hl⟩ := h.current
  have hsl : name.1 ≠ [slash] := fun heq => name.2 (by simp [heq])
  rw [harlinCd,if_neg hsl,resolvePath_plain] at hr
  split_ifs at hr with hnil
  · cases hr
    exact ⟨0,_,rfl,l,hl⟩
  simp only at hr
  split at hr
  · cases hr
  · rename_i d₁ hfn
    cases hr
    obtain ⟨⟨n,rfl⟩,-⟩ :=
      findEntryInDir_spec h.sound fuel h.reliable (.of_chain h.sound hl) hfn
    exact ⟨n,_,rfl,l,hl⟩
  rename_i f d₁ hfn
  obtain ⟨⟨n,rfl⟩,-⟩ :=
    findEntryInDir_spec h.sound fuel h.reliable (.of_chain h.sound hl) hfn
  split_ifs at hr with hat
  · cases hr
    exact ⟨n,_,rfl,l,hl⟩
  · cases hr
    exact ⟨n,_,rfl,htr f ⟨fuel,_,hfn⟩ hat⟩

lemma freeChain_bounded {g : Geometry} {d d₁ : Device} {c : ℕ} {root : ℕ → Prop} (hg : g.Sound)
    (hd : d.Reliable) (hdt : DataOnly g d d₁) (hfr : freeChain g fuel d₁ c = some e) (hap :
    2 ≤ c → c < fat32Eoc → ∃ l, FatChain g (cell g d.byte) c (c :: l) ∧ ∀ x m, root x →
    FatChain g (cell g d.byte) x m → ∀ y ∈ m, y ∉ c :: l) : Bounded g d e ∧ ∀ x, root x →
    Proper g (cell g d.byte) x → Proper g (cell g e.byte) x := by
  by_cases hrn : 2 ≤ c ∧ c < fat32Eoc
  · obtain ⟨l,hch,hds⟩ := hap hrn.1 hrn.2
    have hch' : FatChain g (cell g d₁.byte) c (c :: l) :=
      hch.congr fun x hx => hdt.cell hg (hch.valid x hx).2
    have hfd := freeChain_spec hg fuel (hdt.served hd.fatServed) (.of_chain hg hch') hfr
    refine ⟨(hdt.bounded hg).trans hfd.only.bounded,fun x hrt ⟨m,hm⟩ => ⟨m,?_⟩⟩
    refine hm.congr fun y hy => ?_
    have hlt := (hm.valid y hy).2
    rw [hfd.cell y hlt,if_neg (hds x _ hrt hm y hy),hdt.cell hg hlt]
  · cases fuel with
    | zero => cases hfr
    | succ fuel =>
      rw [freeChain,if_neg hrn] at hfr
      cases hfr
      exact ⟨hdt.bounded hg,fun x _ => (hdt.safe hg).proper x⟩

lemma harlinDeleteFile_bounded (h : s.WellFormed) (name : PlainName)
    (htr : Trusted s (.deleteFile name)) (hr : harlinDeleteFile fuel s.vol name = some (r,v)) :
    ∃ e, v = s.vol.setDev e ∧ Bounded s.vol.geo s.vol.dev e ∧ ∀ c, s.Root c →
    Proper s.vol.geo s.fat c → Proper s.vol.geo (cell s.vol.geo e.byte) c := by
  obtain ⟨l,hl⟩ := h.current
  have hg := h.sound
  rw [harlinDeleteFile,resolvePath_plain] at hr
  split_ifs at hr with hnil
  · cases hr
    exact ⟨_,rfl,.refl _,fun _ _ hc => hc⟩
  simp only at hr
  split at hr
  · cases hr
  · rename_i d₁ hfn
    cases hr
    obtain ⟨⟨n,rfl⟩,-⟩ := findEntryInDir_spec hg fuel h.reliable (.of_chain hg hl) hfn
    exact ⟨_,rfl,(Bounded.refl _).tick n,fun _ _ hc => hc⟩
  rename_i f d₁ hfn
  obtain ⟨⟨n,rfl⟩,hfo⟩ := findEntryInDir_spec hg fuel h.reliable (.of_chain hg hl) hfn
  have hvl := hl.valid _ (hfo f rfl).1
  split_ifs at hr with hat
  · cases hr
    exact ⟨_,rfl,(Bounded.refl _).tick n,fun _ _ hc => hc⟩
  rw [readCluster_ok (h.reliable.tick n)] at hr
  simp only at hr
  rw [writeCluster_ok ((h.reliable.tick n).tick _)] at hr
  obtain ⟨d₂,hfr,heq⟩ := map_eq_some_iff.mp hr
  cases heq
  have hdt := (((DataOnly.refl s.vol.dev).tick n).tick s.vol.geo.sectorsPerCluster).trans
    (stored_dataOnly hg ((h.reliable.tick n).tick s.vol.geo.sectorsPerCluster) hvl
      (clearEntry (clusterBytes s.vol.geo (s.vol.dev.tick n).byte f.cluster) f.offset))
  refine ⟨d₂,rfl,?_⟩
  exact freeChain_bounded hg h.reliable hdt hfr
    (htr f ⟨fuel,_,hfn⟩ (not_not.mp hat))

/-- What holds between the first state of a run and each later one. -/
structure Session.Kept (s₀ s : Session) : Prop where
  geo : s.vol.geo = s₀.vol.geo
  bounded : Bounded s₀.vol.geo s₀.vol.dev s.vol.dev
  wellFormed : s.WellFormed

lemma Session.Kept.refl (h : s.WellFormed) : s.Kept s := ⟨rfl,.refl _,h⟩

lemma Session.Kept.setDev (h : s₀.Kept s) (hb : Bounded s.vol.geo s.vol.dev e)
    (hp : ∀ c, s.Root c → Proper s.vol.geo s.fat c → Proper s.vol.geo (cell s.vol.geo e.byte) c) :
    s₀.Kept { s with vol := s.vol.setDev e } :=
  ⟨h.geo,h.bounded.trans (h.geo ▸ hb),h.wellFormed.setDev hb hp⟩

lemma Session.Kept.setHandle (h : s₀.Kept s) (k : ℕ) (hf : Held s.vol.geo s.fat f) :
    s₀.Kept { s with handle := Function.update s.handle k f } :=
  ⟨h.geo,h.bounded,h.wellFormed.setHandle k hf⟩

lemma Session.Kept.act (h : s₀.Kept s) (a : Call) (htr : Trusted s a)
    (hact : act fuel s a = some s') : s₀.Kept s' := by
  have hs := h.wellFormed
  cases a with
  | mkdir name =>
    obtain ⟨⟨r,v⟩,hr,rfl⟩ := map_eq_some_iff.mp hact
    obtain ⟨e,rfl,hsf⟩ := harlinMkdir_safe hs name hr
    exact h.setDev hsf.bounded fun c _ => hsf.proper c
  | cd name =>
    obtain ⟨⟨r,v⟩,hr,rfl⟩ := map_eq_some_iff.mp hact
    obtain ⟨n,c,rfl,hpr⟩ := harlinCd_safe hs name htr hr
    exact ⟨h.geo,h.bounded.tick n,hs.sound,hs.reliable.tick n,hpr,hs.handles⟩
  | create name k =>
    obtain ⟨⟨r,v,f⟩,hr,rfl⟩ := map_eq_some_iff.mp hact
    obtain ⟨e,rfl,hsf,hhl⟩ := harlinCreate_safe hs name (hs.handles k) hr
    exact (h.setDev hsf.bounded fun c _ => hsf.proper c).setHandle k hhl
  | write k src len =>
    obtain ⟨⟨r,e,f⟩,hr,rfl⟩ := map_eq_some_iff.mp hact
    obtain ⟨hsf,hhl⟩ := harlinWrite_safe hs.sound hs.reliable (hs.handles k) hr
    exact (h.setDev hsf.bounded fun c _ => hsf.proper c).setHandle k hhl
  | deleteFile name =>
    obtain ⟨⟨r,v⟩,hr,rfl⟩ := map_eq_some_iff.mp hact
    obtain ⟨e,rfl,hb,hp⟩ := harlinDeleteFile_bounded hs name htr hr
    exact h.setDev hb hp

/-- As long as the cluster numbers that are read from directory entries can be trusted, no
operation writes a cluster in front of the data area. -/
theorem cluster_writes_in_data (s₀ : Session) (h₀ : s₀.WellFormed)
    (hnone : s₀.vol.dev.clusterWrites = []) (l : List Call) (s : Session)
    (h : Trace ((fileRuns s₀).guarded Trusted) l s) :
    (∀ x ∈ s.vol.dev.clusterWrites, s₀.vol.geo.firstDataSector ≤ x) ∧
    (∀ a < 512*s₀.vol.geo.reservedSectors, s.vol.dev.byte a = s₀.vol.dev.byte a) ∧
    (CopiesAgree s₀.vol.geo s₀.vol.dev.byte → CopiesAgree s₀.vol.geo s.vol.dev.byte) := by
  have hkp : s₀.Kept s := by
    refine h.reach.invariant (fun s => s₀.Kept s) ?_ ?_
    · rintro s rfl
      exact .refl h₀
    · rintro s a s' hs ⟨⟨fuel,hact⟩,htr⟩
      exact hs.act a htr hact
  obtain ⟨new,hnew,hlo⟩ := hkp.bounded.clusterWrites
  refine ⟨fun x hx => ?_,hkp.bounded.reserved,hkp.bounded.copies⟩
  rw [hnew,hnone,List.nil_append] at hx
  exact hlo x hx

/-- The first bytes of a FAT in which only the clusters 0 to 2 are used. -/
def fatBytes (i : ℕ) : UInt8 :=
  if i < 12 then (if i % 4 = 0 then 0xF8 else if i % 4 = 3 then 0x0F else 0xFF) else 0

/-- A fresh volume with two copies of a FAT of one sector, clusters of one sector and an empty root
directory in cluster 2. -/
def freshVolume : Volume where
  geo := ⟨1,1,2,1,2⟩
  dev :=
    { byte a := if a/512 = 1 ∨ a/512 = 2 then fatBytes (a % 512) else 0
      clock := 0
      ok _ _ := true
      clusterWrites := [] }
  currentDirCluster := 2
  initramfs _ := none

def freshSession : Session := ⟨freshVolume,fun _ => ⟨0,0,0,0,0,0,false,none⟩⟩

lemma freshSession_wellFormed : freshSession.WellFormed := by
  refine ⟨⟨by decide,by decide,by decide,by decide,by decide⟩,fun _ _ => rfl,
    ⟨[],⟨⟨rfl,by decide,?_⟩,?_⟩⟩,fun _ => ⟨.inl rfl,.inl rfl,.inl rfl⟩⟩
  · change follow freshSession.fat 2 = fat32Eoc
    decide
  · intro x hx
    rw [List.mem_singleton.mp hx]
    decide

/-- The names `D` and `F`. -/
def nameD : PlainName := ⟨[0x44],by decide⟩
def nameF : PlainName := ⟨[0x46],by decide⟩

/-- The entry of a new directory does not hold its cluster. `Harlin_Cd` enters cluster 0, which is
in the first copy of the FAT, and the next file is created there. -/
theorem create_writes_fat :
    ∃ s, Trace (fileRuns freshSession) [.mkdir nameD,.cd nameD,.create nameF 0] s ∧
    CopiesAgree freshVolume.geo freshVolume.dev.byte ∧ 1 ∈ s.vol.dev.clusterWrites ∧
    1 < freshVolume.geo.firstDataSector ∧ ¬ CopiesAgree freshVolume.geo s.vol.dev.byte := by
  have hrun : ((act 2 freshSession (.mkdir nameD)).bind fun s₁ =>
      (act 2 s₁ (.cd nameD)).bind fun s₂ => (act 2 s₂ (.create nameF 0)).map fun s₃ =>
        decide (1 ∈ s₃.vol.dev.clusterWrites ∧ s₃.vol.dev.byte 1056 ≠ s₃.vol.dev.byte 544)) =
      some true := by
    decide +kernel
  obtain ⟨s₁,h₁,hrun⟩ := Option.bind_eq_some_iff.mp hrun
  obtain ⟨s₂,h₂,hrun⟩ := Option.bind_eq_some_iff.mp hrun
  obtain ⟨s₃,h₃,hfl⟩ := map_eq_some_iff.mp hrun
  obtain ⟨hwr,hby⟩ := of_decide_eq_true hfl
  have htr : Trace (fileRuns freshSession)
      ([] ++ [.mkdir nameD] ++ [.cd nameD] ++ [.create nameF 0]) s₃ :=
    .next (.next (.next (.start rfl) ⟨2,h₁⟩) ⟨2,h₂⟩) ⟨2,h₃⟩
  refine ⟨s₃,htr,?_,hwr,by decide,fun hcp => hby (hcp 1 (by decide) 32 (by decide))⟩
  intro fat hfat i hi
  change (if (512*(1+fat*1)+i)/512 = 1 ∨ (512*(1+fat*1)+i)/512 = 2 then
      fatBytes ((512*(1+fat*1)+i) % 512) else 0) =
    if (512*1+i)/512 = 1 ∨ (512*1+i)/512 = 2 then fatBytes ((512*1+i) % 512) else 0
  have hfat2 : fat < 2 := hfat
  have hi512 : i < 512 := hi
  have hmod : (512*(1+fat*1)+i) % 512 = (512*1+i) % 512 := by omega
  rw [if_pos (by omega),if_pos (by omega),hmod]

theorem cluster_writes_in_data_created :
    ∃ s, Trace ((fileRuns freshSession).guarded Trusted) [.create nameF 0] s ∧
      s.vol.dev.clusterWrites ≠ [] ∧ ∀ x ∈ s.vol.dev.clusterWrites, 3 ≤ x := by
  have hrun : (act 2 freshSession (.create nameF 0)).map
      (fun s => decide (s.vol.dev.clusterWrites ≠ [])) = some true := by
    decide +kernel
  obtain ⟨s,hact,hfl⟩ := map_eq_some_iff.mp hrun
  have htr : Trace ((fileRuns freshSession).guarded Trusted) ([] ++ [.create nameF 0]) s :=
    .next (.start rfl) ⟨⟨2,hact⟩,trivial⟩
  exact ⟨s,htr,of_decide_eq_true hfl,
    (cluster_writes_in_data freshSession freshSession_wellFormed rfl _ s htr).1⟩

end Runs

end HarlinKernel.Fat32
