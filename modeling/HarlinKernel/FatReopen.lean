import HarlinKernel.FatBounds

/-! A file that is created, written and opened again by its name. The entry that `Harlin_Create`
stores has the upper half of the cluster number in the place where `find_entry_in_dir` reads the
lower half, and nothing else of it. -/
namespace HarlinKernel.Fat32

section Entry

variable {buf : Buffer} {offset i : ℕ} {short : List UInt8} {attr : UInt8} {c : ℕ}

lemma entryCluster_congr {entry entry' : Buffer}
    (h : ∀ k, 20 ≤ k → k < 28 → entry' k = entry k) : entryCluster entry' = entryCluster entry := by
  simp [entryCluster,readLe16,h 0x14 (by omega) (by omega),h (0x14+1) (by omega) (by omega),
    h 0x1A (by omega) (by omega),h (0x1A+1) (by omega) (by omega)]

lemma fillEntry_outside (h : i < offset ∨ offset+32 ≤ i) :
    fillEntry buf offset short attr c i = buf i := by
  simp (disch := omega) only [fillEntry,writeLe16,writeLe32,setByte,Function.update_of_ne,if_neg]

lemma entryCluster_fillEntry (hc : c < fat32Eoc) :
    entryCluster (entryAt (fillEntry buf offset short attr c) offset) = c/2^16 := by
  have h20 : fillEntry buf offset short attr c (offset+20) = 0 := by
    simp [fillEntry,writeLe16,writeLe32,setByte]
  have h21 : fillEntry buf offset short attr c (offset+21) = 0 := by
    simp [fillEntry,writeLe16,writeLe32,setByte]
  have h26 : fillEntry buf offset short attr c (offset+26) = UInt8.ofNat (c/2^16) := by
    simp [fillEntry,writeLe16,writeLe32,setByte]
  have h27 : fillEntry buf offset short attr c (offset+27) = UInt8.ofNat (c/2^16/2^8) := by
    simp [fillEntry,writeLe16,writeLe32,setByte]
  rw [fat32Eoc] at hc
  simp only [entryCluster,readLe16,entryAt,h20,h21,h26,h27,UInt8.toNat_ofNat']
  simp
  omega

end Entry

variable {x i fuel dir : ℕ} {l new' : List ℕ} {f : File} {g : Geometry} {d d₁ d₂ : Device}
  {short : List UInt8} {new : ℕ × ℕ × ℕ}

section Frame

variable {g : Geometry} {d e : Device} {f f' : File} {l : List ℕ}

/-- A byte of a cluster, apart from the size in the directory entry of a file. -/
structure Elsewhere (g : Geometry) (f : File) (l : List ℕ) (x i : ℕ) : Prop where
  valid : g.Valid x
  lt : i < g.clusterSize
  apart : x ∉ l
  size : x = f.dirCluster → i < f.dirOffset+28 ∨ f.dirOffset+32 ≤ i

lemma Elsewhere.outside (hg : g.Sound) (h : Elsewhere g f l x i)
    (hl : ∀ c ∈ l, g.Valid c) : g.Outside l (g.clusterStart x+i) := by
  intro c hc
  have hne : c ≠ x := fun heq => h.apart (heq ▸ hc)
  have hap := hg.clusters_apart (hl c hc) h.valid hne
  have hlt := h.lt
  rw [Geometry.clusterStart] at hap
  omega

lemma FatOnly.clusterBytes (hg : g.Sound) (h : FatOnly g d e) (hx : g.Valid x) (i : ℕ) :
    clusterBytes g e.byte x i = clusterBytes g d.byte x i := by
  have hlo := hg.clusterStart_ge hx
  exact h.outside _ (.inr (by omega))

lemma updateDirectorySize_elsewhere (hg : g.Sound) (hd : d.Reliable)
    (hdir : f.dirCluster = 0 ∨ g.Valid f.dirCluster) (h : Elsewhere g f l x i) :
    clusterBytes g (updateDirectorySize g d f).2.byte x i = clusterBytes g d.byte x i := by
  rw [updateDirectorySize]
  split_ifs with hzr
  · rfl
  · rw [readCluster_ok hd]
    simp only
    rw [writeCluster_ok (hd.tick _)]
    by_cases hx : x = f.dirCluster
    · rw [hx,stored_self h.lt]
      exact writeLe32_of_ne (h.size hx)
    · exact stored_of_ne hg (hdir.resolve_left hzr) h.valid hx h.lt

/-- What a write leaves alone on a disk without errors. -/
structure Overwritten (g : Geometry) (f : File) (l new : List ℕ) (d e : Device) : Prop where
  free : ∀ x ∈ new, g.Valid x ∧ cell g d.byte x = 0
  cells : ∀ x < g.totalClusters, x ∉ new → x ∉ l → cell g e.byte x = cell g d.byte x
  bytes : ∀ x i, Elsewhere g f (l ++ new) x i →
    clusterBytes g e.byte x i = clusterBytes g d.byte x i

lemma harlinWrite_overwritten (hg : g.Sound) {len : ℕ} {src : Buffer} {r : Option ℕ}
    (hd : d.Reliable) (h : FatChain g (cell g d.byte) f.startCluster l) (hne : l ≠ [])
    (hcr : f.currentCluster ∈ l) (hdir : f.dirCluster = 0 ∨ g.Valid f.dirCluster)
    (hr : harlinWrite g fuel d f src len = some (r,e,f')) : ∃ new, Overwritten g f l new d e := by
  rw [harlinWrite] at hr
  split_ifs at hr with hlen
  · cases hr
    exact ⟨[],by simp,fun _ _ _ _ => rfl,fun _ _ _ => rfl⟩
  obtain ⟨new,hext⟩ := extendFileClusters_spec hg (neededClusters g f len) hd.fatServed
    (fun hnil => absurd hnil hne) (fun _ => h)
  have hnd : (f.position+len+g.clusterSize-1) % 2^32/g.clusterSize = neededClusters g f len :=
    rfl
  simp only [hnd] at hr
  generalize extendFileClusters g d f (neededClusters g f len) = x at hext hr
  have hgr := hext.grown
  split_ifs at hr with hok
  · have hfl : x.2.2 = f := by
      rcases hext.file with ⟨hnil,-⟩ | ⟨-,hfl⟩
      · exact absurd hnil hne
      · exact hfl
    have hch := hext.chain (by simp [hne])
    have hd₁ : x.2.1.Reliable := hd.of_ok hgr.only.ok
    rw [hfl] at hr hch
    have hrs : cursorReset f = f := by
      have hvl := h.valid _ hcr
      have hlt := hg.lt_eoc hvl.2
      have hpos := hvl.1
      rw [cursorReset,if_neg (by omega)]
    rw [writeExtended,hrs] at hr
    obtain ⟨hcl,hsm,-⟩ := writeFileLoop_spec (f:=f) hg len src len hd₁.fatServed hch
      (.inl (List.mem_append_left new hcr))
    obtain ⟨htr,hd₂⟩ := writeFileLoop_reliable (g:=g) (f:=f) len src len hd₁
    generalize writeFileLoop g len x.2.1 f src len = w at hcl hsm htr hd₂ hr
    obtain ⟨f₁,hf₁⟩ : ∃ f₁ : File, f₁ = { w.2.2.2 with
      size := max w.2.2.2.size w.2.2.2.position } := ⟨_,rfl⟩
    have hdir₁ : f₁.dirCluster = f.dirCluster := by
      rw [hf₁]
      exact hsm.dirCluster
    have hof₁ : f₁.dirOffset = f.dirOffset := by
      rw [hf₁]
      exact hsm.dirOffset
    have hvl₁ : f₁.dirCluster = 0 ∨ g.Valid f₁.dirCluster := by rwa [hdir₁]
    have hup : DataOnly g w.2.2.1 (updateDirectorySize g w.2.2.1 f₁).2 :=
      updateDirectorySize_dataOnly hg hvl₁
    have htr' : (updateDirectorySize g w.2.2.1 f₁).1 = true := updateDirectorySize_reliable hd₂
    simp only [htr,if_true,← hf₁,htr',Option.some.injEq,Prod.mk.injEq] at hr
    obtain ⟨-,rfl,rfl⟩ := hr
    refine ⟨new,hgr.free,fun y hy hnew hl => ?_,fun y i hel => ?_⟩
    · rw [hup.cell hg hy,hcl.data.cell hg hy]
      exact hgr.others y hy hnew hl
    · have hel₁ : Elsewhere g f₁ (l ++ new) y i :=
        ⟨hel.valid,hel.lt,hel.apart,by rw [hdir₁,hof₁]; exact hel.size⟩
      rw [updateDirectorySize_elsewhere hg hd₂ hvl₁ hel₁]
      exact (hcl.outside _ (hel.outside hg hch.valid)).trans
        (hgr.only.clusterBytes hg hel.valid i)
  · simp only [Option.some.injEq,Prod.mk.injEq] at hr
    obtain ⟨-,heq⟩ := hr
    have hd' : x.2.1 = e := congrArg Prod.fst heq
    subst hd'
    exact ⟨new,hgr.free,hgr.others,
      fun y i hel => hgr.only.clusterBytes hg hel.valid i⟩

end Frame

/-- A volume without errors and with an empty initial ramdisk. The current directory has a chain,
and no entry in use names a cluster that is free. -/
structure Volume.WellFormed (v : Volume) : Prop where
  sound : v.geo.Sound
  reliable : v.dev.Reliable
  ramdisk : ∀ name, v.initramfs name = none
  directory : ∃ l,
    FatChain v.geo (cell v.geo v.dev.byte) v.currentDirCluster (v.currentDirCluster :: l) ∧
    ∀ x ∈ v.currentDirCluster :: l, ∀ i < v.geo.clusterSize/32,
      let entry := entryAt (clusterBytes v.geo v.dev.byte x) (i*32)
      UsedEntry entry → ¬ (v.geo.Valid (entryCluster entry) ∧
        cell v.geo v.dev.byte (entryCluster entry) = 0)

/-- The file is found by its name, with its first cluster, its size and its contents. -/
def Persisted (v : Volume) (name : List UInt8) (out : File) (cluster : ℕ) (src : Buffer)
    (len : ℕ) : Prop :=
  ∃ fuel v' f, harlinOpen fuel v name out = some (harlinFsOk,v',f) ∧ f.size = len ∧
    f.startCluster = cluster ∧ ∀ dst,
      let r := harlinRead v'.geo v'.dev f dst len
      (0 < len → r.1 = toInt len) ∧ ∀ i < len, r.2.1 i = src i

lemma harlinOpen_found {v v' : Volume} {out : File} (hg : v.geo.Sound) (hd : v.dev.Reliable)
    (hram : ∀ name, v.initramfs name = none)
    (h : FatChain v.geo (cell v.geo v.dev.byte) v.currentDirCluster (v.currentDirCluster :: l))
    (name : PlainName) (hr : harlinOpen fuel v name out = some (harlinFsOk,v',f)) :
    ∃ x ∈ v.currentDirCluster :: l,
      ∃ i < v.geo.clusterSize/32, UsedEntry (entryAt (clusterBytes v.geo v.dev.byte x) (i*32)) ∧
        f.startCluster = entryCluster (entryAt (clusterBytes v.geo v.dev.byte x) (i*32)) := by
  rw [harlinOpen,hram,resolvePath_plain] at hr
  split_ifs at hr with hnil
  · cases hr
  simp only at hr
  split at hr
  · cases hr
  · cases hr
  rename_i found d₁ hfn
  obtain ⟨-,hfo⟩ := findEntryInDir_spec hg fuel hd (.of_chain hg h) hfn
  obtain ⟨hmem,i,hi,heq,hus⟩ := hfo found rfl
  split_ifs at hr
  · cases hr
  · obtain ⟨-,-,rfl⟩ := hr
    refine ⟨found.cluster,hmem,i,hi,hus,?_⟩
    rw [heq]
    rfl

lemma directory_apart (h : FatChain g (cell g d.byte) dir (dir :: l))
    (had : Added g (dir :: l) short 0x20 (fun _ _ => 0) d new d₁)
    (hwr : Overwritten g f [new.1] new' d₁ d₂) (hx : x ∈ dir :: l) : x ≠ new.1 ∧ x ∉ new' := by
  have hcl := h.cell_ne_zero hx
  have hxn : x ≠ new.1 := by
    rintro rfl
    exact hcl had.free.2
  refine ⟨hxn,fun hmem => hcl ?_⟩
  have hzr := (hwr.free x hmem).2
  rwa [had.cell x (h.valid x hx).2,if_neg hxn] at hzr

/-- Entries of other slots are left alone, and the entry in the new slot does not name the new
cluster. -/
theorem entry_not_new
    (hg : g.Sound)
    (h : FatChain g (cell g d.byte) dir (dir :: l))
    (hen : ∀ x ∈ dir :: l, ∀ i < g.clusterSize/32,
      let entry := entryAt (clusterBytes g d.byte x) (i*32)
      UsedEntry entry → ¬ (g.Valid (entryCluster entry) ∧ cell g d.byte (entryCluster entry) = 0))
    (had : Added g (dir :: l) short 0x20 (fun _ _ => 0) d new d₁)
    (hdc : f.dirCluster = new.2.1) (hdo : f.dirOffset = new.2.2)
    (hwt : Overwritten g f [new.1] new' d₁ d₂) (hx : x ∈ dir :: l)
    (hi : i < g.clusterSize/32)
    (hus : UsedEntry (entryAt (clusterBytes g d₂.byte x) (i*32))) :
    entryCluster (entryAt (clusterBytes g d₂.byte x) (i*32)) ≠ new.1 := by
  have hvl := h.valid x hx
  obtain ⟨-,j,hj,hof⟩ := had.slot
  obtain ⟨hxn,hxn'⟩ := directory_apart h had hwt hx
  have hap : x ∉ [new.1] ++ new' := by simp [hxn,hxn']
  have hwr (k : ℕ) (hk : k < 32) (hsz : x = f.dirCluster → i = j → k < 28) :
      clusterBytes g d₂.byte x (i*32+k) = clusterBytes g d₁.byte x (i*32+k) := by
    refine hwt.bytes x _ ⟨hvl,by omega,hap,fun hdir => ?_⟩
    omega
  by_cases hsl : x = new.2.1 ∧ i = j
  · -- the slot of the new file
    obtain ⟨rfl,rfl⟩ := hsl
    have hnew (k : ℕ) (_ : 20 ≤ k) (hk : k < 28) :
        entryAt (clusterBytes g d₂.byte new.2.1) (i*32) k =
          entryAt (fillEntry (clusterBytes g d.byte new.2.1) (i*32) short 0x20 new.1) (i*32) k := by
      rw [entryAt,hwr k (by omega) (fun _ _ => hk),had.entry _ (by omega),hof]
      rfl
    have h2 := had.free.1.1
    rw [entryCluster_congr hnew,entryCluster_fillEntry (hg.lt_eoc had.free.1.2)]
    omega
  · have hsm (k : ℕ) (hk : k < 32) : entryAt (clusterBytes g d₂.byte x) (i*32) k =
        entryAt (clusterBytes g d.byte x) (i*32) k := by
      rw [entryAt,hwr k hk (fun hdir hij => absurd ⟨hdir.trans hdc,hij⟩ hsl)]
      by_cases hdir : x = new.2.1
      · rw [hdir,had.entry _ (by omega),fillEntry_outside (by omega)]
        rfl
      · exact had.others x hvl hxn hdir _ (by omega)
    have hus' : UsedEntry (entryAt (clusterBytes g d.byte x) (i*32)) := by
      rw [UsedEntry,← hsm 0 (by omega),← hsm 11 (by omega)]
      exact hus
    rw [entryCluster_congr fun k _ hk => hsm k (by omega)]
    intro heq
    refine hen x hx i hi hus' ?_
    rw [heq]
    exact had.free

/-- A file that was created and written is not found again with the cluster that was allocated for
it, whatever its name and its contents. -/
theorem created_file_not_persisted (v v₁ : Volume) (h : v.WellFormed) (name : PlainName)
    (fuel fuel' : ℕ) (out out' f f' : File) (src : Buffer) (len : ℕ) (d₂ : Device)
    (hcreate : harlinCreate fuel v name out = some (harlinFsOk,v₁,f))
    (hwrite : harlinWrite v₁.geo fuel' v₁.dev f src len = some (some len,d₂,f')) :
    ¬ Persisted (v₁.setDev d₂) name out' f.startCluster src len := by
  obtain ⟨l,hl,hen⟩ := h.directory
  have hg := h.sound
  rcases harlinCreate_spec hg h.reliable hl name hcreate with
    ⟨hbad,-⟩ | ⟨-,short,new,e,rfl,had,rfl⟩
  · cases hbad
  have hend : fat32Eoc ≤ cell v.geo e.byte new.1 := by
    rw [had.cell _ had.free.1.2,if_pos rfl]
  have hsn : FatChain v.geo (cell v.geo e.byte) new.1 [new.1] := by
    refine FatChain.cons hg had.free.1 ⟨?_,by simp⟩ rfl
    simp [LinkedTree.Chain,follow,hend]
  have hrl : e.Reliable := h.reliable.of_ok had.bounded.ok
  obtain ⟨new',hwr⟩ := harlinWrite_overwritten hg hrl hsn (by simp) (by simp)
    (.inr (hl.valid _ had.slot.1)) hwrite
  have hch : FatChain v.geo (cell v.geo d₂.byte) v.currentDirCluster
      (v.currentDirCluster :: l) := by
    refine hl.congr fun x hx => ?_
    obtain ⟨hxn,hxn'⟩ := directory_apart hl had hwr hx
    have hlt := (hl.valid x hx).2
    rw [hwr.cells x hlt hxn' (by simp [hxn]),had.cell x hlt,if_neg hxn]
  rintro ⟨fuel₂,v',f₂,hop,-,hst,-⟩
  have hd₂ : d₂.Reliable := hrl.of_ok (harlinWrite_safe hg hrl
    ⟨.inr ⟨[],hsn⟩,.inr (.inr ⟨[],hsn⟩),.inr (hl.valid _ had.slot.1)⟩
    hwrite).1.bounded.ok
  obtain ⟨x,hx,i,hi,hus,heq⟩ := harlinOpen_found (v:=(v.setDev e).setDev d₂) hg hd₂ h.ramdisk
    hch name hop
  exact entry_not_new hg hl hen had rfl rfl hwr hx hi hus (heq.symm.trans hst)

lemma freshVolume_wellFormed : freshVolume.WellFormed := by
  obtain ⟨hsn,hrl,-,-⟩ := freshSession_wellFormed
  refine ⟨hsn,hrl,fun _ => rfl,[],⟨⟨rfl,by decide,?_⟩,?_⟩,?_⟩
  · change follow (cell freshVolume.geo freshVolume.dev.byte) 2 = fat32Eoc
    decide
  · intro x hx
    rw [List.mem_singleton.mp hx]
    decide
  · intro x hx i hi entry hus
    obtain rfl : x = 2 := List.mem_singleton.mp hx
    have hzr : freshVolume.dev.byte (1536+(i*32+0)) = 0 := if_neg (by omega)
    exact absurd hzr hus.1

/-- A handle that is not in use. -/
def closedFile : File := ⟨0,0,0,0,0,0,false,none⟩

/-- One byte. -/
def oneByte : Buffer := fun _ => 0x41

lemma freshVolume_run :
    ∃ v₁ f d₂ f' v₂ f₂, harlinCreate 2 freshVolume nameF closedFile = some (harlinFsOk,v₁,f) ∧
      f.startCluster = 3 ∧ harlinWrite v₁.geo 2 v₁.dev f oneByte 1 = some (some 1,d₂,f') ∧
      harlinOpen 2 (v₁.setDev d₂) nameF (harlinClose f') = some (harlinFsOk,v₂,f₂) ∧
      f₂.startCluster = 0 := by
  have hrun : ((harlinCreate 2 freshVolume nameF closedFile).bind fun r =>
      (harlinWrite r.2.1.geo 2 r.2.1.dev r.2.2 oneByte 1).bind fun w =>
        (harlinOpen 2 (r.2.1.setDev w.2.1) nameF (harlinClose w.2.2)).map fun o =>
          decide ((r.1 = harlinFsOk ∧ r.2.2.startCluster = 3) ∧ w.1 = some 1 ∧
            o.1 = harlinFsOk ∧ o.2.2.startCluster = 0)) = some true := by
    decide +kernel
  obtain ⟨⟨r,v₁,f⟩,hcr,hrun⟩ := Option.bind_eq_some_iff.mp hrun
  obtain ⟨⟨w,d₂,f'⟩,hwr,hrun⟩ := Option.bind_eq_some_iff.mp hrun
  obtain ⟨⟨o,v₂,f₂⟩,hop,hfl⟩ := Option.map_eq_some_iff.mp hrun
  obtain ⟨⟨hr,hth⟩,hw,ho,hzr⟩ := of_decide_eq_true hfl
  cases hr
  cases hw
  cases ho
  exact ⟨v₁,f,d₂,f',v₂,f₂,hcr,hth,hwr,hop,hzr⟩

theorem created_file_not_persisted_one : ∃ v₁ f d₂ f',
    harlinCreate 2 freshVolume nameF closedFile = some (harlinFsOk,v₁,f) ∧
    harlinWrite v₁.geo 2 v₁.dev f oneByte 1 = some (some 1,d₂,f') ∧
    ¬ Persisted (v₁.setDev d₂) nameF closedFile f.startCluster oneByte 1 := by
  obtain ⟨v₁,f,d₂,f',-,-,hcr,-,hwr,-⟩ := freshVolume_run
  exact ⟨v₁,f,d₂,f',hcr,hwr,created_file_not_persisted freshVolume v₁ freshVolume_wellFormed
    nameF 2 2 closedFile closedFile f f' oneByte 1 d₂ hcr hwr⟩

/-- The file is opened again with size and name, but with a cluster in front of the data area. -/
theorem reopened_at_cluster_zero : ∃ v₁ f d₂ f' v₂ f₂,
    freshVolume.WellFormed ∧
    harlinCreate 2 freshVolume nameF closedFile = some (harlinFsOk,v₁,f) ∧
    harlinWrite v₁.geo 2 v₁.dev f oneByte 1 = some (some 1,d₂,f') ∧
    harlinOpen 2 (v₁.setDev d₂) nameF (harlinClose f') = some (harlinFsOk,v₂,f₂) ∧
    f₂.startCluster ≠ f.startCluster ∧ ¬ freshVolume.geo.Valid f₂.startCluster := by
  obtain ⟨v₁,f,d₂,f',v₂,f₂,hcr,hth,hwr,hop,hzr⟩ := freshVolume_run
  refine ⟨v₁,f,d₂,f',v₂,f₂,freshVolume_wellFormed,hcr,hwr,hop,?_,?_⟩
  · rw [hth,hzr]
    decide
  · rw [hzr]
    decide

end HarlinKernel.Fat32
