import HarlinKernel.Fat32Paths
import HarlinKernel.FatRollback

/-! Directories on a disk without errors: what the two scans of a directory find, and what the
creation of an entry writes. -/
namespace HarlinKernel.Fat32

variable {e : Device} {i n fuel : ℕ}

section Reliable

variable {g : Geometry} {d : Device} {c : ℕ} {buf : Buffer}

/-- Every command is carried out. -/
def Device.Reliable (d : Device) : Prop := ∀ n cmd, d.ok n cmd = true

lemma Device.Reliable.serves (hd : d.Reliable) (s : ℕ) : d.Serves s := fun n => ⟨hd n _,hd n _⟩

lemma Device.Reliable.fatServed (hd : d.Reliable) : FatServed g d := fun s _ => hd.serves s

lemma Device.Reliable.of_ok (hd : d.Reliable) (h : e.ok = d.ok) : e.Reliable := by
  rw [Device.Reliable,h]
  exact hd

/-- The first byte of a cluster. -/
def Geometry.clusterStart (g : Geometry) (c : ℕ) : ℕ := 512*g.clusterToSector c

def clusterBytes (g : Geometry) (b : Buffer) (c : ℕ) : Buffer := fun i => b (g.clusterStart c+i)

lemma readCluster_ok (hd : d.Reliable) (c : ℕ) :
    readCluster g d c = (some (clusterBytes g d.byte c),d.tick g.sectorsPerCluster) :=
  ataReadSectors_ok fun _ _ => hd.serves _

/-- The disk after `write_cluster`. -/
def stored (g : Geometry) (d : Device) (c : ℕ) (buf : Buffer) : Device where
  byte := copyBytes d.byte (g.clusterStart c) buf g.clusterSize
  clock := d.clock+2*g.sectorsPerCluster
  ok := d.ok
  clusterWrites := d.clusterWrites ++
    (List.range g.sectorsPerCluster).map fun i => g.clusterToSector c+i

lemma stored_ok (g : Geometry) (d : Device) (c : ℕ) (buf : Buffer) :
    (stored g d c buf).ok = d.ok := by
  rw [stored]

lemma Device.Reliable.stored (hd : d.Reliable) (c : ℕ) (buf : Buffer) :
    (stored g d c buf).Reliable := hd.of_ok (stored_ok g d c buf)

lemma Device.Reliable.tick (hd : d.Reliable) (n : ℕ) : (d.tick n).Reliable :=
  hd.of_ok (tick_ok n)

lemma nextCluster_cell (hd : d.Reliable) (hc : c < fat32Eoc) :
    nextCluster g d c = (cell g d.byte c,d.tick 1) := by
  have hsm : c*4 % 2^32 = c*4 := Nat.mod_eq_of_lt (by rw [fat32Eoc] at hc; omega)
  have had : 512*(g.fatStartSector+c*4/512)+c*4 % 512 = g.cellAddress 0 c := by
    rw [Geometry.cellAddress]
    omega
  rw [nextCluster,readSector_ok (hd.serves _)]
  simp only [readLe32_shift,fatSector,fatOffset,hsm,had]
  rfl

lemma writeAttempts_ok (hd : d.Reliable) (sector retry : ℕ) (buf : Buffer) :
    writeAttempts g sector buf (retry+1) d =
      (true,{ d.tick (2*g.sectorsPerCluster) with
        byte := copyBytes d.byte (512*sector) buf g.clusterSize }) := by
  obtain ⟨k,hk⟩ : ∃ k : Device, k =
      { d.tick g.sectorsPerCluster with
        byte := copyBytes d.byte (512*sector) buf (512*g.sectorsPerCluster) } := ⟨_,rfl⟩
  have hsr (s : ℕ) : k.Serves s := by
    rw [hk]
    exact hd.serves s
  have hvr : ∀ i < g.clusterSize, buf i = k.byte (512*sector+i) := by
    intro i hi
    rw [Geometry.clusterSize] at hi
    simp only [hk,copyBytes]
    rw [if_pos (by omega),Nat.add_sub_cancel_left]
  rw [writeAttempts,ataWriteSectors,writeLoop_ok fun _ _ => hd.serves _,← hk]
  simp only [if_true]
  rw [ataReadSectors_ok fun _ _ => hsr _]
  simp only
  rw [if_pos hvr,hk]
  simp [Device.tick,Geometry.clusterSize,Nat.two_mul,Nat.add_assoc]

lemma writeCluster_ok (hd : d.Reliable) (c : ℕ) (buf : Buffer) :
    writeCluster g d c buf = (true,stored g d c buf) :=
  let sectors := (List.range g.sectorsPerCluster).map fun i => g.clusterToSector c+i
  writeAttempts_ok (d:={ d with clusterWrites := d.clusterWrites ++ sectors }) hd
    (g.clusterToSector c) 2 buf

end Reliable

section Scans

variable {g : Geometry} {d : Device} {c : ℕ} {l : List ℕ} {name : List UInt8} {buf : Buffer}

/-- An entry that `find_entry_in_dir` compares with the name. -/
def UsedEntry (entry : Buffer) : Prop :=
  entry 0 ≠ 0 ∧ entry 0 ≠ fat32Deleted ∧ entry 11 ≠ fat32Lfn

/-- What `find_entry_in_dir` reports about the entry at an offset. -/
def foundAt (buf : Buffer) (cluster offset : ℕ) : Found :=
  let entry := entryAt buf offset
  ⟨cluster,offset,entryCluster entry,readLe32 entry 0x1C,entry 11⟩

lemma scanEntries_found {cluster : ℕ} {f : Found}
    (h : scanEntries name buf cluster i n = .found f) :
    ∃ j, j < i+n ∧ f = foundAt buf cluster (j*32) ∧ UsedEntry (entryAt buf (j*32)) := by
  induction n generalizing i with
  | zero => cases h
  | succ n ih =>
    have hlt (h : scanEntries name buf cluster (i+1) n = .found f) :
        ∃ j, j < i+(n+1) ∧ f = foundAt buf cluster (j*32) ∧ UsedEntry (entryAt buf (j*32)) := by
      obtain ⟨j,hj,hfn⟩ := ih h
      exact ⟨j,by omega,hfn⟩
    rw [scanEntries] at h
    split_ifs at h with hzr hlfn hdl
    · exact hlt h
    · exact hlt h
    · refine ⟨i,by omega,?_,hzr,hdl,hlfn⟩
      cases h
      rfl
    · exact hlt h

lemma findEntryInDir_spec (hg : g.Sound) (fuel : ℕ) (hd : d.Reliable)
    (h : Leads g (cell g d.byte) c l) {r : Option Found}
    (hr : findEntryInDir g name fuel d c = some (r,e)) :
    (∃ n, e = d.tick n) ∧ ∀ f, r = some f →
      f.cluster ∈ l ∧
        ∃ i < g.clusterSize/32, f = foundAt (clusterBytes g d.byte f.cluster) f.cluster (i*32) ∧
          UsedEntry (entryAt (clusterBytes g d.byte f.cluster) (i*32)) := by
  induction l generalizing d c fuel with
  | nil =>
    cases fuel with
    | zero => cases hr
    | succ fuel =>
      have heoc := h.nil
      rw [findEntryInDir,if_neg (by omega)] at hr
      cases hr
      exact ⟨⟨0,rfl⟩,fun f hf => by cases hf⟩
  | cons x l ih =>
    cases fuel with
    | zero => cases hr
    | succ fuel =>
      obtain ⟨rfl,hlt,hch⟩ := h.cons hg
      rw [findEntryInDir,if_pos hlt,readCluster_ok hd] at hr
      simp only at hr
      split at hr
      · rename_i f hsc
        cases hr
        refine ⟨⟨_,rfl⟩,fun f hf => ?_⟩
        cases hf
        obtain ⟨j,hj,hfn,hus⟩ := scanEntries_found hsc
        have hcl : f.cluster = c := by rw [hfn]; rfl
        rw [hcl]
        exact ⟨by simp,j,by omega,hfn,hus⟩
      · cases hr
        exact ⟨⟨_,rfl⟩,fun f hf => by cases hf⟩
      · obtain ⟨k,hk⟩ : ∃ k, k = g.sectorsPerCluster+1 := ⟨_,rfl⟩
        rw [nextCluster_cell (hd.tick _) hlt,tick_tick,← hk] at hr
        obtain ⟨⟨n,hn⟩,hfn⟩ := ih fuel (d := d.tick k) hd hch.leads hr
        refine ⟨⟨k+n,by rw [hn,tick_tick]⟩,fun f hf => ?_⟩
        obtain ⟨hmem,hsl⟩ := hfn f hf
        exact ⟨List.mem_cons_of_mem c hmem,hsl⟩

lemma scanSlots_spec {offset : ℕ} (h : scanSlots buf i n = some offset) :
    ∃ j, j < i+n ∧ offset = j*32 := by
  induction n generalizing i with
  | zero => cases h
  | succ n ih =>
    rw [scanSlots] at h
    split_ifs at h
    · cases h
      exact ⟨i,by omega,rfl⟩
    · obtain ⟨j,hj,hsl⟩ := ih h
      exact ⟨j,by omega,hsl⟩

lemma findDirectorySlotIn_spec (hg : g.Sound) (fuel : ℕ) (hd : d.Reliable)
    (h : Leads g (cell g d.byte) c l) {r : Option (ℕ × ℕ)}
    (hr : findDirectorySlotIn g fuel d c = some (r,e)) :
    (∃ n, e = d.tick n) ∧ ∀ s, r = some s → s.1 ∈ l ∧ ∃ i < g.clusterSize/32, s.2 = i*32 := by
  induction l generalizing d c fuel with
  | nil =>
    cases fuel with
    | zero => cases hr
    | succ fuel =>
      have heoc := h.nil
      rw [findDirectorySlotIn,if_neg (by omega)] at hr
      cases hr
      exact ⟨⟨0,rfl⟩,fun s hs => by cases hs⟩
  | cons x l ih =>
    cases fuel with
    | zero => cases hr
    | succ fuel =>
      obtain ⟨rfl,hlt,hch⟩ := h.cons hg
      rw [findDirectorySlotIn,if_pos hlt,readCluster_ok hd] at hr
      simp only at hr
      split at hr
      · rename_i offset hsc
        cases hr
        refine ⟨⟨_,rfl⟩,fun s hs => ?_⟩
        cases hs
        obtain ⟨j,hj,hof⟩ := scanSlots_spec hsc
        exact ⟨by simp,j,by omega,hof⟩
      · obtain ⟨k,hk⟩ : ∃ k, k = g.sectorsPerCluster+1 := ⟨_,rfl⟩
        rw [nextCluster_cell (hd.tick _) hlt,tick_tick,← hk] at hr
        obtain ⟨⟨n,hn⟩,hsl⟩ := ih fuel (d := d.tick k) hd hch.leads hr
        refine ⟨⟨k+n,by rw [hn,tick_tick]⟩,fun s hs => ?_⟩
        obtain ⟨hmem,hi⟩ := hsl s hs
        exact ⟨List.mem_cons_of_mem c hmem,hi⟩

end Scans

section Bounds

variable {g : Geometry} {d e : Device} {c x : ℕ} {buf : Buffer}

/-- What no operation on files should do more than: the reserved sectors are left alone, the
copies of the FAT stay the same, and `write_cluster` is asked for sectors of the data area. -/
structure Bounded (g : Geometry) (d e : Device) : Prop where
  reserved : ∀ a < 512*g.reservedSectors, e.byte a = d.byte a
  copies : CopiesAgree g d.byte → CopiesAgree g e.byte
  ok : e.ok = d.ok
  clusterWrites : ∃ new, e.clusterWrites = d.clusterWrites ++ new ∧
    ∀ s ∈ new, g.firstDataSector ≤ s

lemma FatOnly.bounded (h : FatOnly g d e) : Bounded g d e :=
  ⟨fun a ha => h.outside a (.inl ha),h.copies,h.ok,[],by simp [h.clusterWrites]⟩

lemma DataOnly.bounded (hg : g.Sound) (h : DataOnly g d e) : Bounded g d e := by
  have hfr := hg.fits.firstDataSector_eq
  refine ⟨fun a ha => h.byte a (by omega),fun hc fat hfat i hi => ?_,h.ok,h.clusterWrites⟩
  have hmul : (fat+1)*g.sectorsPerFat ≤ g.numberOfFats*g.sectorsPerFat :=
    Nat.mul_le_mul_right _ hfat
  rw [Nat.add_mul] at hmul
  have hsm := hc fat hfat i hi
  rw [Geometry.fatStartSector] at hsm ⊢
  rw [h.byte _ (by omega),h.byte _ (by omega)]
  exact hsm

lemma Bounded.refl (d : Device) : Bounded g d d := (FatOnly.refl d).bounded

lemma Bounded.tick (h : Bounded g d e) (n : ℕ) : Bounded g d (e.tick n) :=
  ⟨h.reserved,h.copies,h.ok,h.clusterWrites⟩

lemma Bounded.trans {k : Device} (h : Bounded g d e) (h' : Bounded g e k) : Bounded g d k := by
  obtain ⟨new,hnew,hlo⟩ := h.clusterWrites
  obtain ⟨new',hnew',hlo'⟩ := h'.clusterWrites
  refine ⟨fun a ha => (h'.reserved a ha).trans (h.reserved a ha),
    fun hc => h'.copies (h.copies hc),h'.ok.trans h.ok,new ++ new',?_,?_⟩
  · rw [hnew',hnew,List.append_assoc]
  · intro s hs
    exact (List.mem_append.mp hs).elim (hlo s) (hlo' s)

lemma stored_dataOnly (hg : g.Sound) (hd : d.Reliable) (hc : g.Valid c) (buf : Buffer) :
    DataOnly g d (stored g d c buf) := by
  have h : DataOnly g d (writeCluster g d c buf).2 := writeCluster_dataOnly hg hc
  rwa [writeCluster_ok hd c buf] at h

lemma Geometry.Sound.clusterStart_ge (hg : g.Sound) (hc : g.Valid c) :
    512*g.firstDataSector ≤ g.clusterStart c := by
  rw [Geometry.clusterStart,(hg.clusterToSector_eq hc).1]
  omega

lemma Geometry.Sound.clusters_apart (hg : g.Sound) (hc : g.Valid c) (hx : g.Valid x)
    (hne : c ≠ x) : g.clusterStart c+g.clusterSize ≤ g.clusterStart x ∨
      g.clusterStart x+g.clusterSize ≤ g.clusterStart c := by
  rw [Geometry.clusterStart,Geometry.clusterStart,(hg.clusterToSector_eq hc).1,
    (hg.clusterToSector_eq hx).1,Geometry.clusterSize]
  have hc2 := hc.1
  have hx2 := hx.1
  rcases Nat.lt_or_gt_of_ne hne with hlt | hlt
  · have hmul : (c-2+1)*g.sectorsPerCluster ≤ (x-2)*g.sectorsPerCluster :=
      Nat.mul_le_mul_right _ (by omega)
    rw [Nat.add_mul] at hmul
    omega
  · have hmul : (x-2+1)*g.sectorsPerCluster ≤ (c-2)*g.sectorsPerCluster :=
      Nat.mul_le_mul_right _ (by omega)
    rw [Nat.add_mul] at hmul
    omega

lemma stored_of_ne (hg : g.Sound) (hc : g.Valid c) (hx : g.Valid x) (hne : x ≠ c)
    (hi : i < g.clusterSize) :
    clusterBytes g (stored g d c buf).byte x i = clusterBytes g d.byte x i := by
  have hap := hg.clusters_apart hc hx hne.symm
  rw [clusterBytes,clusterBytes,stored]
  rcases hap with h | h
  · exact copyBytes_of_ge (by omega)
  · exact copyBytes_of_lt (by omega)

lemma stored_self (hi : i < g.clusterSize) :
    clusterBytes g (stored g d c buf).byte c i = buf i := by
  rw [clusterBytes,stored]
  simp only [copyBytes]
  rw [if_pos (by omega),Nat.add_sub_cancel_left]

end Bounds

section Creation

variable {g : Geometry} {d e : Device} {l : List ℕ} {dir : ℕ} {short : List UInt8} {attr : UInt8}
  {first : ℕ → Buffer}

lemma fillEntry_congr {buf buf' : Buffer} (h : buf' i = buf i) (offset cluster : ℕ) :
    fillEntry buf' offset short attr cluster i = fillEntry buf offset short attr cluster i := by
  simp [fillEntry,writeLe16,writeLe32,setByte,Function.update_apply,h]

/-- A new cluster and a slot of the directory that has been filled. -/
structure Added (g : Geometry) (l : List ℕ) (short : List UInt8) (attr : UInt8)
    (first : ℕ → Buffer) (d : Device) (new : ℕ × ℕ × ℕ) (e : Device) : Prop where
  slot : new.2.1 ∈ l ∧ ∃ i < g.clusterSize/32, new.2.2 = i*32
  free : g.Valid new.1 ∧ cell g d.byte new.1 = 0
  cell : ∀ x < g.totalClusters,
    cell g e.byte x = if x = new.1 then fat32Eoc else cell g d.byte x
  bounded : Bounded g d e
  contents : ∀ i < g.clusterSize, clusterBytes g e.byte new.1 i = first new.1 i
  entry : ∀ i < g.clusterSize, clusterBytes g e.byte new.2.1 i =
    fillEntry (clusterBytes g d.byte new.2.1) new.2.2 short attr new.1 i
  others : ∀ x, g.Valid x → x ≠ new.1 → x ≠ new.2.1 → ∀ i < g.clusterSize,
    clusterBytes g e.byte x i = clusterBytes g d.byte x i

lemma addEntry_spec (hg : g.Sound) (hd : d.Reliable)
    (h : FatChain g (Fat32.cell g d.byte) dir (dir :: l)) {r : Option (ℕ × ℕ × ℕ)}
    (hr : addEntry fuel g d dir short attr first = some (r,e)) : (r = none ∧ ∃ n, e = d.tick n) ∨
    ∃ new, r = some new ∧ Added g (dir :: l) short attr first d new e := by
  rw [addEntry] at hr
  split at hr
  · cases hr
  · rename_i d₁ hsl
    cases hr
    exact .inl ⟨rfl,(findDirectorySlotIn_spec hg fuel hd (.of_chain hg h) hsl).1⟩
  rename_i dc off d₁ hsl
  obtain ⟨⟨n,rfl⟩,hfn⟩ := findDirectorySlotIn_spec hg fuel hd (.of_chain hg h) hsl
  obtain ⟨hmem,hoff⟩ := hfn _ rfl
  rcases allocateCluster_spec hg.fits (d:=d.tick n) hd.fatServed with
    ⟨c,hsm,hvl,hfe,hset⟩ | ⟨hno,-,k,hk⟩
  · have hdc : g.Valid dc := h.valid dc hmem
    have hne : dc ≠ c := by
      rintro rfl
      exact h.cell_ne_zero hmem hfe
    simp only [hsm] at hr
    generalize (allocateCluster g (d.tick n)).2 = d₁ at hset hr
    have hd₁ : d₁.Reliable := hd.of_ok hset.only.ok
    rw [writeCluster_ok hd₁] at hr
    simp only [if_true] at hr
    have hdt₂ := stored_dataOnly hg hd₁ hvl (first c)
    have hby (x : ℕ) (hx : g.Valid x) (hxc : x ≠ c) (i : ℕ) (hi : i < g.clusterSize) :
        clusterBytes g (stored g d₁ c (first c)).byte x i = clusterBytes g d.byte x i := by
      have hlo := hg.clusterStart_ge hx
      rw [stored_of_ne hg hvl hx hxc hi,clusterBytes,hset.only.outside _ (.inr (by omega))]
      rfl
    have hfr (i : ℕ) (hi : i < g.clusterSize) :
        clusterBytes g (stored g d₁ c (first c)).byte c i = first c i := stored_self hi
    generalize stored g d₁ c (first c) = d₂ at hdt₂ hby hfr hr
    have hd₂ : d₂.Reliable := hd₁.of_ok hdt₂.ok
    rw [readCluster_ok hd₂] at hr
    simp only at hr
    rw [writeCluster_ok (d:=d₂.tick g.sectorsPerCluster) hd₂] at hr
    simp only [if_true,Option.some.injEq,Prod.mk.injEq] at hr
    obtain ⟨rfl,rfl⟩ := hr
    have hdt₃ := stored_dataOnly hg (d:=d₂.tick g.sectorsPerCluster) hd₂ hdc
      (fillEntry (clusterBytes g d₂.byte dc) off short attr c)
    refine .inr ⟨(c,dc,off),rfl,⟨hmem,hoff⟩,⟨hvl,hfe⟩,fun x hx => ?_,?_,fun i hi => ?_,
      fun i hi => ?_,fun x hx hxc hxdc i hi => ?_⟩
    · rw [hdt₃.cell hg hx]
      exact (hdt₂.cell hg hx).trans (hset.cell x hx)
    · have hfat : Bounded g d d₁ := ((Bounded.refl d).tick n).trans hset.only.bounded
      exact ((hfat.trans (hdt₂.bounded hg)).tick _).trans (hdt₃.bounded hg)
    · rw [stored_of_ne hg hdc hvl hne.symm hi]
      exact hfr i hi
    · rw [stored_self hi]
      exact fillEntry_congr (hby dc hdc hne i hi) off c
    · rw [stored_of_ne hg hdc hx hxdc hi]
      exact hby x hx hxc i hi
  · simp only [hno,hk] at hr
    cases hr
    exact .inl ⟨rfl,n+k,by rw [tick_tick]⟩

lemma Added.of_tick {new : ℕ × ℕ × ℕ} (h : Added g l short attr first (d.tick n) new e) :
    Added g l short attr first d new e :=
  ⟨h.slot,h.free,h.cell,((Bounded.refl d).tick n).trans h.bounded,h.contents,h.entry,h.others⟩

/-- A name without a slash. -/
abbrev PlainName := { name : List UInt8 // slash ∉ name }

lemma resolvePath_plain (v : Volume) (name : PlainName) :
    resolvePath fuel v name = if name.1 = [] then some (none,v.dev)
      else some (some (v.currentDirCluster,some name.1),v.dev) := by
  have hhd : ¬ name.1.head? = some slash := fun h => name.2 (List.mem_of_mem_head? h)
  rw [resolvePath,if_neg hhd,if_neg name.2]

lemma harlinCreate_spec {v v' : Volume} {out f' : File} {r : ℤ} (hg : v.geo.Sound)
    (hd : v.dev.Reliable)
    (h : FatChain v.geo (Fat32.cell v.geo v.dev.byte) v.currentDirCluster
      (v.currentDirCluster :: l)) (name : PlainName)
    (hr : harlinCreate fuel v name out = some (r,v',f')) :
    (r = harlinFsError ∧ f' = out ∧ ∃ n, v' = v.setDev (v.dev.tick n)) ∨
      (r = harlinFsOk ∧ ∃ short new e, v' = v.setDev e ∧
        Added v.geo (v.currentDirCluster :: l) short 0x20 (fun _ _ => 0) v.dev new e ∧
        f' = { out with
          startCluster := new.1
          currentCluster := new.1
          position := 0
          size := 0
          dirCluster := new.2.1
          dirOffset := new.2.2 }) := by
  rw [harlinCreate,resolvePath_plain] at hr
  split_ifs at hr with hnil
  · cases hr
    exact .inl ⟨rfl,rfl,0,rfl⟩
  simp only at hr
  split at hr
  · cases hr
    exact .inl ⟨rfl,rfl,0,rfl⟩
  split at hr
  · cases hr
  rename_i short _ _ found d₁ hfn
  obtain ⟨⟨n,rfl⟩,-⟩ := findEntryInDir_spec hg fuel hd (.of_chain hg h) hfn
  split_ifs at hr
  · cases hr
    exact .inl ⟨rfl,rfl,n,rfl⟩
  · obtain ⟨⟨res,d₂⟩,hadd,heq⟩ := Option.map_eq_some_iff.mp hr
    rcases addEntry_spec hg (hd.tick n) h hadd with ⟨rfl,k,rfl⟩ | ⟨new,rfl,had⟩
    · cases heq
      exact .inl ⟨rfl,rfl,n+k,by rw [tick_tick]⟩
    · cases heq
      exact .inr ⟨rfl,short,new,d₂,rfl,had.of_tick,rfl⟩

end Creation

end HarlinKernel.Fat32
