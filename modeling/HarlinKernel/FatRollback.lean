import HarlinKernel.FatChains

/-! A write that fails: what `extend_file_clusters` has allocated, and what `truncate_file_at`
takes back. Data and directory sectors may fail at any time; the FAT does not. -/
namespace HarlinKernel.Fat32

open List (exists_cons_of_ne_nil length_append length_nil mem_cons length_cons ne_nil_of_mem
  getLast)
variable {k e : Device} {x c z needed : ℕ} {fat : ℕ → ℕ} {new : List ℕ} {r : Bool × Device × File}

section Data

variable {g : Geometry} {d e : Device} {c : ℕ} {buf : Buffer}

lemma Geometry.Sound.clusterToSector_eq (hg : g.Sound) (hc : g.Valid c) :
    g.clusterToSector c = g.firstDataSector+(c-2)*g.sectorsPerCluster ∧
      g.firstDataSector+(c-2)*g.sectorsPerCluster+g.sectorsPerCluster < 2^32 := by
  have hlt := hg.lt_eoc hc.2
  have hdt := hg.data_lt
  rw [← hg.fits.firstDataSector_eq] at hdt
  have hmul : (c-2)*g.sectorsPerCluster ≤ (c-2)*8 := Nat.mul_le_mul_left _ hg.cluster_le
  have hsub : (c+(2^32-2)) % 2^32 = c-2 := by
    have h2 := hc.1
    rw [fat32Eoc] at hlt
    omega
  have hle := hg.cluster_le
  rw [fat32Eoc] at hlt
  have hbn : g.firstDataSector+(c-2)*g.sectorsPerCluster+g.sectorsPerCluster < 2^32 := by omega
  refine ⟨?_,hbn⟩
  rw [Geometry.clusterToSector,hsub]
  exact Nat.mod_eq_of_lt (by omega)

/-- Only the data area has changed, and `write_cluster` was asked for no other sectors. -/
structure DataOnly (g : Geometry) (d e : Device) : Prop where
  byte : ∀ a < 512*g.firstDataSector, e.byte a = d.byte a
  ok : e.ok = d.ok
  clusterWrites : ∃ new, e.clusterWrites = d.clusterWrites ++ new ∧
    ∀ s ∈ new, g.firstDataSector ≤ s

lemma DataOnly.refl (d : Device) : DataOnly g d d := ⟨fun _ _ => rfl,rfl,[],by simp⟩

lemma DataOnly.trans (h : DataOnly g d e) (h' : DataOnly g e k) : DataOnly g d k := by
  obtain ⟨new,hnew,hlo⟩ := h.clusterWrites
  obtain ⟨new',hnew',hlo'⟩ := h'.clusterWrites
  refine ⟨fun a ha => (h'.byte a ha).trans (h.byte a ha),h'.ok.trans h.ok,new ++ new',?_,?_⟩
  · rw [hnew',hnew,List.append_assoc]
  · intro s hs
    exact (List.mem_append.mp hs).elim (hlo s) (hlo' s)

lemma DataOnly.tick (h : DataOnly g d e) (n : ℕ) : DataOnly g d (e.tick n) :=
  ⟨h.byte,h.ok,h.clusterWrites⟩

lemma DataOnly.served (h : DataOnly g d e) (hd : FatServed g d) : FatServed g e := by
  intro s hs n
  rw [h.ok]
  exact hd s hs n

lemma DataOnly.cell (hg : g.Sound) (h : DataOnly g d e) (hx : x < g.totalClusters) :
    cell g e.byte x = cell g d.byte x := by
  rw [Fat32.cell,Fat32.cell,cellAt,cellAt]
  congr 1
  refine readLe32_congr fun k hk => h.byte _ ?_
  have hmul : 1*g.sectorsPerFat ≤ g.numberOfFats*g.sectorsPerFat :=
    Nat.mul_le_mul_right _ hg.fats_pos
  rw [hg.totalClusters_eq] at hx
  rw [Geometry.cellAddress,Geometry.fatStartSector,hg.fits.firstDataSector_eq]
  omega

lemma confined_writeAttempts (g : Geometry) (buf : Buffer) (d : Device) (sector retry : ℕ) :
    Confined sector (sector+g.sectorsPerCluster) d (writeAttempts g sector buf retry d).2 := by
  induction retry generalizing d with
  | zero => exact .refl _ _ d
  | succ retry ih =>
    have hwr : Confined sector (sector+g.sectorsPerCluster) d
        (ataWriteSectors d sector g.sectorsPerCluster buf).2 :=
      confined_writeLoop (le_refl _) (le_refl _)
    rw [writeAttempts]
    simp only
    split_ifs
    · have hrd := confined_read sector (sector+g.sectorsPerCluster)
        (ataWriteSectors d sector g.sectorsPerCluster buf).2 sector g.sectorsPerCluster
      split
      · exact (hwr.trans hrd).trans (ih _)
      · split_ifs
        · exact hwr.trans hrd
        · exact (hwr.trans hrd).trans (ih _)
    · exact hwr.trans (ih _)

lemma writeCluster_confined (g : Geometry) (d : Device) (c : ℕ) (buf : Buffer) :
    Confined (g.clusterToSector c) (g.clusterToSector c+g.sectorsPerCluster)
    { d with clusterWrites := d.clusterWrites ++ (List.range g.sectorsPerCluster).map fun i =>
    g.clusterToSector c+i } (writeCluster g d c buf).2 :=
  confined_writeAttempts g buf _ _ 3

lemma writeCluster_dataOnly (hg : g.Sound) (hc : g.Valid c) :
    DataOnly g d (writeCluster g d c buf).2 := by
  have hcn := writeCluster_confined g d c buf
  have hsc := (hg.clusterToSector_eq hc).1
  refine ⟨fun a ha => hcn.byte a (.inl (by omega)),hcn.ok,_,
    hcn.clusterWrites,fun s hs => ?_⟩
  obtain ⟨i,-,rfl⟩ := List.mem_map.mp hs
  omega

/-- The byte is in none of the clusters. -/
def Geometry.Outside (g : Geometry) (l : List ℕ) (a : ℕ) : Prop :=
  ∀ c ∈ l, a < 512*g.clusterToSector c ∨ 512*g.clusterToSector c+g.clusterSize ≤ a

/-- Only some clusters of the data area have changed. -/
structure ClustersOnly (g : Geometry) (l : List ℕ) (d e : Device) : Prop where
  data : DataOnly g d e
  outside : ∀ a, g.Outside l a → e.byte a = d.byte a

variable {l : List ℕ}

lemma ClustersOnly.refl (d : Device) : ClustersOnly g l d d := ⟨.refl d,fun _ _ => rfl⟩

lemma ClustersOnly.trans (h : ClustersOnly g l d e) (h' : ClustersOnly g l e k) :
    ClustersOnly g l d k :=
  ⟨h.data.trans h'.data,fun a ha => (h'.outside a ha).trans (h.outside a ha)⟩

lemma ClustersOnly.tick (h : ClustersOnly g l d e) (n : ℕ) : ClustersOnly g l d (e.tick n) :=
  ⟨h.data.tick n,h.outside⟩

lemma readCluster_clustersOnly : ClustersOnly g l d (readCluster g d c).2 := by
  obtain ⟨n,hn⟩ := ataReadSectors_tick d (g.clusterToSector c) g.sectorsPerCluster
  rw [readCluster,hn]
  exact (ClustersOnly.refl d).tick n

lemma readCluster_dataOnly : DataOnly g d (readCluster g d c).2 :=
  (readCluster_clustersOnly (l := [])).data

lemma writeCluster_clustersOnly (hg : g.Sound) (hl : ∀ x ∈ l, g.Valid x) (hc : c ∈ l) :
    ClustersOnly g l d (writeCluster g d c buf).2 := by
  refine ⟨writeCluster_dataOnly hg (hl c hc),fun a ha => ?_⟩
  have hsd := ha c hc
  rw [Geometry.clusterSize] at hsd
  exact (writeCluster_confined g d c buf).byte a (by omega)

end Data

section Loop

variable {g : Geometry} {d : Device} {f : File} {l : List ℕ}

/-- The fields of a handle that the loop of `Harlin_Write` leaves alone. -/
structure SameFile (f f' : File) : Prop where
  startCluster : f'.startCluster = f.startCluster
  size : f'.size = f.size
  dirCluster : f'.dirCluster = f.dirCluster
  dirOffset : f'.dirOffset = f.dirOffset

/-- The cursor is in the chain or behind its end. -/
def AtChain (l : List ℕ) (c : ℕ) : Prop := c ∈ l ∨ fat32Eoc ≤ c

lemma FatChain.atChain (hg : g.Sound) (h : FatChain g fat c l)
    (hx : x ∈ l) : AtChain l (fat x) := by
  obtain ⟨l₁,l₂,rfl,hch⟩ := h.suffix hx
  cases l₂ with
  | nil => exact .inr hch.last
  | cons y l₂ =>
    rw [hch.next hg]
    exact .inl (by simp)

lemma writeFileLoop_spec (hg : g.Sound) (fuel : ℕ) (src : Buffer) (remaining : ℕ)
    (hd : FatServed g d) (h : FatChain g (cell g d.byte) c l) (hf : AtChain l f.currentCluster) :
    ClustersOnly g l d (writeFileLoop g fuel d f src remaining).2.2.1 ∧
      SameFile f (writeFileLoop g fuel d f src remaining).2.2.2 ∧
      AtChain l (writeFileLoop g fuel d f src remaining).2.2.2.currentCluster := by
  induction fuel generalizing d f src remaining with
  | zero => exact ⟨.refl d,⟨rfl,rfl,rfl,rfl⟩,hf⟩
  | succ fuel ih =>
    rw [writeFileLoop]
    split_ifs with hgo
    · have hmem : f.currentCluster ∈ l := hf.resolve_right (by omega)
      have hvl := h.valid _ hmem
      obtain ⟨chunk,hcn⟩ : ∃ n, n = min (g.clusterSize-f.position % g.clusterSize) remaining :=
        ⟨_,rfl⟩
      obtain ⟨r,hr⟩ : ∃ r, r = (if chunk < g.clusterSize then readCluster g d f.currentCluster
        else (some fun _ => 0,d)) := ⟨_,rfl⟩
      have hrd : ClustersOnly g l d r.2 := by
        rw [hr]
        split_ifs
        · exact readCluster_clustersOnly
        · exact .refl d
      simp only [← hcn,← hr]
      split
      · exact ⟨hrd,⟨rfl,rfl,rfl,rfl⟩,hf⟩
      rename_i buf _
      obtain ⟨w,hw⟩ : ∃ w, w = writeCluster g r.2 f.currentCluster
        (copyBytes buf (f.position % g.clusterSize) src chunk) := ⟨_,rfl⟩
      have hwr : ClustersOnly g l d w.2 := by
        rw [hw]
        exact hrd.trans (writeCluster_clustersOnly hg h.valid hmem)
      rw [← hw]
      have hsr := hwr.data.served hd
      have hch : FatChain g (cell g w.2.byte) c l :=
        h.congr fun x hx => hwr.data.cell hg (h.valid x hx).2
      split_ifs
      · -- the cursor moves on to the next cluster
        rw [nextCluster_ok hg.fits hsr hvl.2]
        have hnx : AtChain l (cell g w.2.byte f.currentCluster) := hch.atChain hg hmem
        obtain ⟨hdt,hsm,hat⟩ := ih (d := w.2.tick 1)
          (f := { f with
            position := (f.position+chunk) % 2^32
            currentCluster := cell g w.2.byte f.currentCluster })
          (fun i => src (i+chunk)) (remaining-chunk) hsr hch hnx
        exact ⟨(hwr.tick 1).trans hdt,⟨hsm.1,hsm.2,hsm.3,hsm.4⟩,hat⟩
      · obtain ⟨hdt,hsm,hat⟩ := ih (d := w.2)
          (f := { f with position := (f.position+chunk) % 2^32 })
          (fun i => src (i+chunk)) (remaining-chunk) hsr hch hf
        exact ⟨hwr.trans hdt,⟨hsm.1,hsm.2,hsm.3,hsm.4⟩,hat⟩
      · exact ⟨hwr,⟨rfl,rfl,rfl,rfl⟩,hf⟩
    · exact ⟨.refl d,⟨rfl,rfl,rfl,rfl⟩,hf⟩

lemma updateDirectorySize_dataOnly (hg : g.Sound) (hf : f.dirCluster = 0 ∨ g.Valid f.dirCluster) :
    DataOnly g d (updateDirectorySize g d f).2 := by
  rw [updateDirectorySize]
  split_ifs with hzr
  · exact .refl d
  · have hvl := hf.resolve_left hzr
    simp only
    split
    · exact readCluster_dataOnly
    · exact readCluster_dataOnly.trans (writeCluster_dataOnly hg hvl)

end Loop

section Extension

variable {g : Geometry} {d : Device} {f : File} {l : List ℕ}

/-- The clusters that are free. -/
def freeClusters (g : Geometry) (fat : ℕ → ℕ) : Finset ℕ :=
  (Finset.range g.totalClusters).filter fun c => 2 ≤ c ∧ fat c = 0

lemma mem_freeClusters : x ∈ freeClusters g fat ↔ g.Valid x ∧ fat x = 0 := by
  simp only [freeClusters,Finset.mem_filter,Finset.mem_range,Geometry.Valid]
  omega

/-- What the extension of the empty or non-empty chain `l` to `l ++ new` has done. -/
structure Grown (g : Geometry) (l new : List ℕ) (d e : Device) : Prop where
  free : ∀ x ∈ new, g.Valid x ∧ cell g d.byte x = 0
  nodup : new.Nodup
  others : ∀ x < g.totalClusters, x ∉ new → x ∉ l → cell g e.byte x = cell g d.byte x
  only : FatOnly g d e

lemma Grown.enough {n : ℕ} {ok : Bool} (h : Grown g l new d e) (hl : ∀ x ∈ l, cell g d.byte x ≠ 0)
    (hres : (ok = true ∧ new.length = n) ∨
      (ok = false ∧ new.length < n ∧ ∀ x, g.Valid x → cell g e.byte x ≠ 0)) :
    ok = true ↔ n ≤ (freeClusters g (cell g d.byte)).card := by
  have hcr : new.toFinset.card = new.length := List.toFinset_card_of_nodup h.nodup
  rcases hres with ⟨hok,hlen⟩ | ⟨hok,hlen,hfl⟩
  · refine iff_of_true hok ?_
    rw [← hlen,← hcr]
    exact Finset.card_le_card fun x hx =>
      mem_freeClusters.mpr (h.free x (List.mem_toFinset.mp hx))
  refine iff_of_false (by simp [hok]) ?_
  have hsub : freeClusters g (cell g d.byte) ⊆ new.toFinset := by
    intro x hx
    obtain ⟨hvl,hzr⟩ := mem_freeClusters.mp hx
    by_contra hnot
    rw [List.mem_toFinset] at hnot
    have hxl : x ∉ l := fun hmem => hl x hmem hzr
    exact hfl x hvl ((h.others x hvl.2 hnot hxl).trans hzr)
  have hle := Finset.card_le_card hsub
  omega

lemma Grown.free_ne_empty (h : Grown g l new d e) (hne : new ≠ []) :
    freeClusters g (cell g d.byte) ≠ ∅ := by
  obtain ⟨x,rest,rfl⟩ := exists_cons_of_ne_nil hne
  exact Finset.ne_empty_of_mem (mem_freeClusters.mpr (h.free x (by simp)))

/-- The number of clusters that `extend_file_clusters` looks for. A file without a chain counts
its first cluster twice. -/
def missing (l : List ℕ) (needed : ℕ) : ℕ :=
  if l = [] then max 1 (needed-1) else needed-l.length

lemma walk_bound (hg : g.Sound) (h : FatChain g fat c l) : l.length < maxWalk := by
  have hlen := h.length_le
  have hcl := hg.cells_le
  rw [hg.totalClusters_eq] at hlen
  rw [fat32Eoc] at hcl
  rw [maxWalk]
  omega

lemma extendFrom_spec (hg : g.Sound) (count needed : ℕ) (hd : FatServed g d)
    (h : FatChain g (cell g d.byte) c (l ++ [z])) :
    ∃ new, Extended g c l z new d (extendFrom g d c count needed).2 ∧
      (((extendFrom g d c count needed).1 = true ∧ new.length = needed-(count+l.length+1)) ∨
        ((extendFrom g d c count needed).1 = false ∧ new.length < needed-(count+l.length+1) ∧
          ∀ x, g.Valid x → cell g (extendFrom g d c count needed).2.byte x ≠ 0)) := by
  have hwl := walk_bound hg h
  rw [length_append,List.length_singleton] at hwl
  have heq : extendFrom g d c count needed =
      appendClusters g (needed-(count+l.length+1)) (d.tick (l.length+1)) z := by
    rw [extendFrom,walkToEnd_spec hg maxWalk count hd h (by omega)]
  rw [heq]
  obtain ⟨new,hext,hres⟩ := appendClusters_spec hg (needed-(count+l.length+1))
    (d := d.tick (l.length+1)) hd h
  exact ⟨new,⟨hext.chain,hext.free,hext.others,
    ((FatOnly.refl d).tick _).trans hext.only⟩,hres⟩

/-- `extend_file_clusters` for a file with the chain `l`, which is empty if the file has none. -/
structure ExtendedFile (g : Geometry) (d : Device) (f : File) (l : List ℕ) (needed : ℕ)
    (new : List ℕ) (r : Bool × Device × File) : Prop where
  grown : Grown g l new d r.2.1
  result : (r.1 = true ∧ new.length = missing l needed) ∨
    (r.1 = false ∧ new.length < missing l needed ∧
      ∀ x, g.Valid x → cell g r.2.1.byte x ≠ 0)
  chain : l ++ new ≠ [] → FatChain g (cell g r.2.1.byte) r.2.2.startCluster (l ++ new)
  file : (l = [] ∧ new ≠ [] ∧ r.2.2 = { f with
      startCluster := r.2.2.startCluster,currentCluster := r.2.2.startCluster }) ∨
    ((l ≠ [] ∨ new = []) ∧ r.2.2 = f)

lemma extend_empty (hg : g.Sound) (needed : ℕ) (hd : FatServed g d)
    (hf : f.startCluster = 0 ∨ fat32Eoc ≤ f.startCluster) :
    ∃ new, ExtendedFile g d f [] needed new (extendFileClusters g d f needed) := by
  rw [extendFileClusters,if_pos hf]
  rcases allocateCluster_spec hg.fits hd with ⟨c,hsm,hvl,hfr,hset⟩ | ⟨hno,hus,k,hk⟩
  · simp only [hsm]
    generalize (allocateCluster g d).2 = d₁ at hset ⊢
    have hend : fat32Eoc ≤ cell g d₁.byte c := by
      rw [hset.cell c hvl.2,if_pos rfl]
      exact le_refl _
    have hsn : FatChain g (cell g d₁.byte) c ([] ++ [c]) := by
      refine FatChain.cons hg hvl ⟨?_,by simp⟩ rfl
      simp [LinkedTree.Chain,follow,hend]
    split_ifs with hone
    · refine ⟨[c],⟨⟨?_,by simp,?_,hset.only⟩,.inl ⟨rfl,?_⟩,fun _ => hsn,
        .inl ⟨rfl,by simp,rfl⟩⟩⟩
      · simpa using ⟨hvl,hfr⟩
      · intro x hx hmem _
        rw [hset.cell x hx,if_neg (by simpa using hmem)]
      · rw [missing,if_pos rfl]
        simp only [List.length_singleton]
        omega
    · obtain ⟨rest,hext,hres⟩ := extendFrom_spec hg 1 needed (hset.only.served hd) hsn
      have hne : ∀ x ∈ rest, x ≠ c := by
        rintro x hx rfl
        have hzr := (hext.free x hx).2
        rw [hset.cell x hvl.2,if_pos rfl] at hzr
        exact absurd hzr (by decide)
      have hms : missing [] needed = 1+(needed-(1+([] : List ℕ).length+1)) := by
        rw [missing,if_pos rfl]
        simp only [length_nil]
        omega
      refine ⟨c :: rest,⟨⟨?_,?_,?_,hset.only.trans hext.only⟩,?_,fun _ => hext.chain,
        .inl ⟨rfl,by simp,rfl⟩⟩⟩
      · intro x hx
        rcases mem_cons.mp hx with rfl | hx
        · exact ⟨hvl,hfr⟩
        · obtain ⟨hxv,hzr⟩ := hext.free x hx
          rw [hset.cell x hxv.2,if_neg (hne x hx)] at hzr
          exact ⟨hxv,hzr⟩
      · exact hext.chain.nodup
      · intro x hx hmem _
        simp only [mem_cons,not_or] at hmem
        rw [hext.others x hx hmem.2 hmem.1,hset.cell x hx,if_neg hmem.1]
      · rw [hms]
        rcases hres with ⟨hok,hlen⟩ | ⟨hok,hlen,hfl⟩
        · exact .inl ⟨hok,by rw [length_cons,hlen]; omega⟩
        · exact .inr ⟨hok,by rw [length_cons]; omega,hfl⟩
  · simp only [hno]
    refine ⟨[],⟨⟨by simp,by simp,fun x _ _ _ => ?_,?_⟩,.inr ⟨rfl,?_,?_⟩,by simp,
      .inr ⟨.inr rfl,rfl⟩⟩⟩
    · rw [hk]
      rfl
    · rw [hk]
      exact (FatOnly.refl d).tick k
    · rw [missing,if_pos rfl]
      simp only [length_nil]
      omega
    · rw [hk]
      exact hus

lemma extend_chain (hg : g.Sound) (needed : ℕ) (hd : FatServed g d)
    (h : FatChain g (cell g d.byte) f.startCluster (l ++ [z])) :
    ∃ new, ExtendedFile g d f (l ++ [z]) needed new (extendFileClusters g d f needed) := by
  have hst : g.Valid f.startCluster := by
    cases l with
    | nil =>
      rw [h.head]
      exact h.valid z (by simp)
    | cons x l =>
      rw [h.head]
      exact h.valid x (by simp)
  have hlt := hg.lt_eoc hst.2
  have hpos := hst.1
  rw [extendFileClusters,if_neg (by omega)]
  obtain ⟨new,hext,hres⟩ := extendFrom_spec hg 0 needed hd h
  have hms : missing (l ++ [z]) needed = needed-(0+l.length+1) := by
    rw [missing,if_neg (by simp),length_append,List.length_singleton,Nat.zero_add]
  have has : l ++ [z] ++ new = l ++ z :: new := by simp
  refine ⟨new,⟨⟨hext.free,?_,?_,hext.only⟩,?_,fun _ => ?_,.inr ⟨.inl (by simp),rfl⟩⟩⟩
  · have hnd := hext.chain.nodup
    rw [List.nodup_append] at hnd
    exact (List.nodup_cons.mp hnd.2.1).2
  · intro x hx hmem hxl
    exact hext.others x hx hmem fun heq => hxl (by simp [heq])
  · rw [hms]
    exact hres
  · rw [has]
    exact hext.chain

lemma extendFileClusters_spec (hg : g.Sound) (needed : ℕ) (hd : FatServed g d)
    (hem : l = [] → f.startCluster = 0)
    (hch : l ≠ [] → FatChain g (cell g d.byte) f.startCluster l) :
    ∃ new, ExtendedFile g d f l needed new (extendFileClusters g d f needed) := by
  by_cases hl : l = []
  · subst hl
    exact extend_empty hg needed hd (.inl (hem rfl))
  · obtain ⟨m,z,rfl⟩ := List.eq_nil_or_concat' l |>.resolve_left hl
    exact extend_chain hg needed hd (hch hl)

/-- The handle has the chain `l`, which is empty if its first cluster is 0 or ends a chain. -/
def HasChain (g : Geometry) (d : Device) (f : File) (l : List ℕ) : Prop :=
  if l = [] then f.startCluster = 0 ∨ fat32Eoc ≤ f.startCluster
  else FatChain g (cell g d.byte) f.startCluster l

/-- What `extend_file_clusters` promises where it returns 0: the old chain, and behind it as many
clusters that were free as are missing. -/
def Delivers (g : Geometry) (d : Device) (f : File) (l : List ℕ) (needed : ℕ) : Prop :=
  ∀ e f', extendFileClusters g d f needed = (true,e,f') → ∃ new,
    FatChain g (cell g e.byte) f'.startCluster (l ++ new) ∧
    (l ++ new).length = max needed l.length ∧ (∀ x ∈ new, g.Valid x ∧ cell g d.byte x = 0) ∧
    (∀ x < g.totalClusters, x ∉ l ++ new → cell g e.byte x = cell g d.byte x) ∧ FatOnly g d e

/-- The first cluster of a file without a chain is counted twice, so that a cluster is missing
where more than one is asked for and enough are free. -/
theorem extension_delivers_iff (hg : g.Sound) (hd : FatServed g d) (hf : HasChain g d f l)
    (hn : 1 ≤ needed) : Delivers g d f l needed ↔
      l ≠ [] ∨ needed = 1 ∨ (freeClusters g (cell g d.byte)).card < needed-1 := by
  have hsp : ∃ new, ExtendedFile g d f l needed new (extendFileClusters g d f needed) := by
    rw [HasChain] at hf
    split_ifs at hf with hl
    · exact hl ▸ extend_empty hg needed hd hf
    · exact extendFileClusters_spec hg needed hd (fun hbad => absurd hbad hl) fun _ => hf
  have hus : ∀ x ∈ l, cell g d.byte x ≠ 0 := by
    intro x hx
    rw [HasChain,if_neg (ne_nil_of_mem hx)] at hf
    exact hf.cell_ne_zero hx
  obtain ⟨new,hext⟩ := hsp
  have hen := hext.grown.enough hus hext.result
  constructor
  · intro hdl
    by_contra hbad
    simp only [not_or,not_not,not_lt] at hbad
    obtain ⟨rfl,hone,hfr⟩ := hbad
    have hms : missing [] needed = needed-1 := by rw [missing,if_pos rfl]; omega
    have hok := hen.mpr (hms.trans_le hfr)
    have hlen := (hext.result.resolve_right fun hfl => by simp [hok] at hfl).2
    obtain ⟨new',hch,hlen',-⟩ := hdl _ _ (Prod.ext hok rfl)
    have hne : [] ++ new ≠ [] := List.ne_nil_of_length_pos (by rw [List.nil_append]; omega)
    have hsm := (hext.chain hne).chain.unique hch.chain
    rw [← hsm,List.nil_append,length_nil] at hlen'
    omega
  · rintro hcn e f' heq
    rw [heq] at hext hen
    have hlen := (hext.result.resolve_right fun hfl => by simp at hfl).2
    have hfr := hen.mp rfl
    have hln : (l ++ new).length = max needed l.length := by
      rw [missing] at hlen hfr
      rw [length_append]
      split_ifs at hlen hfr with hl
      · subst hl
        rw [length_nil]
        rcases hcn with hbad | hone | hfew
        · exact absurd rfl hbad
        · omega
        · omega
      · omega
    refine ⟨new,hext.chain (List.ne_nil_of_length_pos (by omega)),hln,hext.grown.free,
      fun x hx hmem => ?_,hext.grown.only⟩
    rw [List.mem_append,not_or] at hmem
    exact hext.grown.others x hx hmem.2 hmem.1

/-- A handle on a file without a chain. -/
def emptyFile : File := ⟨0,0,0,0,0,0,false,none⟩

lemma blankVolume_sound : blankVolume.1.Sound := by constructor <;> decide

theorem extension_delivers_iff_one : Delivers blankVolume.1 blankVolume.2 emptyFile [] 1 := by
  have hf : HasChain blankVolume.1 blankVolume.2 emptyFile [] := .inl rfl
  exact (extension_delivers_iff blankVolume_sound (fun _ _ _ => ⟨rfl,rfl⟩) hf le_rfl).mpr
    (.inr (.inl rfl))

/-- Two clusters are asked for, and the file gets one. -/
theorem extension_one_short :
    ∃ e f', extendFileClusters blankVolume.1 blankVolume.2 emptyFile 2 = (true,e,f') ∧
      FatChain blankVolume.1 (cell blankVolume.1 e.byte) f'.startCluster [2] ∧
      ¬ Delivers blankVolume.1 blankVolume.2 emptyFile [] 2 := by
  have hrun : (extendFileClusters blankVolume.1 blankVolume.2 emptyFile 2).1 = true ∧
      (extendFileClusters blankVolume.1 blankVolume.2 emptyFile 2).2.2.startCluster = 2 ∧
      cell blankVolume.1 (extendFileClusters blankVolume.1 blankVolume.2 emptyFile 2).2.1.byte 2 =
        fat32Eoc := by
    decide
  obtain ⟨⟨ok,e,f'⟩,hr⟩ : ∃ r, extendFileClusters blankVolume.1 blankVolume.2 emptyFile 2 = r :=
    ⟨_,rfl⟩
  rw [hr] at hrun
  obtain ⟨rfl,hst,hend⟩ := hrun
  have hch : FatChain blankVolume.1 (cell blankVolume.1 e.byte) f'.startCluster [2] := by
    rw [hst]
    refine FatChain.cons blankVolume_sound (by decide) ⟨?_,by simp⟩ rfl
    simp [LinkedTree.Chain,follow,hend]
  refine ⟨e,f',hr,hch,fun hdl => ?_⟩
  obtain ⟨new,hch',hlen,-⟩ := hdl e f' hr
  rw [← hch.chain.unique hch'.chain] at hlen
  exact absurd hlen (by decide)

end Extension

section Rollback

variable {g : Geometry} {d d' : Device} {f f' : File} {l : List ℕ} {src : Buffer} {len fuel : ℕ}

/-- `truncate_file_at` at a number of clusters within the chain: if it frees some, the last one
that stays goes on pointing at the first one freed. -/
theorem truncateFileAt_spec (hg : g.Sound) (l₁ : List ℕ) {l₂ : List ℕ} (hd : FatServed g d)
    (h : FatChain g (cell g d.byte) f.startCluster (l₁ ++ l₂)) (hne : l₁ ++ l₂ ≠ [])
    {t : Bool × Device} (ht : truncateFileAt g fuel d f l₁.length = some t) :
    ((l₁ = [] ∨ l₂ ≠ []) ∧ Freed g l₂ d t.2) ∨
      (l₂ = [] ∧ ∃ l z, l₁ = l ++ [z] ∧ CellSet g z fat32Eoc d t.2) := by
  obtain ⟨x,m,hxm⟩ := exists_cons_of_ne_nil hne
  have hst : f.startCluster = x := (hxm ▸ h).head
  have hvl := (hxm ▸ h).valid x (by simp)
  have hlt := hg.lt_eoc hvl.2
  have hld : Leads g (cell g d.byte) f.startCluster (l₁ ++ l₂) := by
    rw [hxm,hst] at h ⊢
    exact .of_chain hg h
  have hpos := hvl.1
  rw [truncateFileAt,if_neg (by omega)] at ht
  obtain ⟨c,hwl,hrs⟩ := truncateWalk_spec hg 0 hd hld
  simp only [hwl] at ht
  obtain ⟨r,hr,rfl⟩ := Option.map_eq_some_iff.mp ht
  obtain ⟨hpr,hfr⟩ := truncateFree_spec hg fuel (d := d.tick l₁.length) hd hrs hr
  have hfr' : Freed g l₂ d r.2.2 :=
    ⟨hfr.cell,((FatOnly.refl d).tick _).trans hfr.only⟩
  by_cases hl₂ : l₂ = []
  · by_cases hl₁ : l₁ = []
    · simp [hl₁,hl₂] at hne
    · obtain ⟨l,z,hlz⟩ := List.eq_nil_or_concat' l₁ |>.resolve_left hl₁
      have hz : g.Valid z := h.valid z (by simp [hlz])
      have hpz := hz.1
      rw [if_pos hl₂,hlz,List.getLast?_append_of_ne_nil _ (by simp)] at hpr
      simp only [List.getLast?_singleton,Option.getD_some] at hpr
      obtain ⟨hok,hset⟩ := writeFatEntry_spec hg.fits (hfr'.only.served hd) hz.2 fat32Eoc
      refine .inr ⟨hl₂,l,z,hlz,?_⟩
      rw [if_neg (by omega),hpr]
      refine ⟨fun y hy => ?_,hfr'.only.trans hset.only⟩
      change cell g (writeFatEntry g r.2.2 z fat32Eoc).2.byte y = _
      rw [hset.cell y hy,hfr'.cell y hy,hl₂]
      simp
  · rw [if_neg hl₂] at hpr
    rw [if_pos hpr]
    exact .inl ⟨.inr hl₂,hfr'⟩

lemma truncateFileAt_all (hg : g.Sound) (hd : FatServed g d)
    (h : FatChain g (cell g d.byte) f.startCluster l) (hne : l ≠ []) {t : Bool × Device}
    (ht : truncateFileAt g fuel d f 0 = some t) : Freed g l d t.2 := by
  rcases truncateFileAt_spec hg [] hd h hne ht with ⟨-,hfr⟩ | ⟨-,m,z,hbad,-⟩
  · exact hfr
  · simp at hbad

/-- A handle with the chain `l`, which has as many clusters as its size needs. -/
structure OpenFile (g : Geometry) (d : Device) (f : File) (l : List ℕ) : Prop where
  empty : l = [] → f.startCluster = 0
  chain : l ≠ [] → FatChain g (cell g d.byte) f.startCluster l
  size : l.length = (f.size+g.clusterSize-1)/g.clusterSize
  size_lt : f.size < 2^32
  current : f.currentCluster = 0 ∨ AtChain l f.currentCluster
  dir : f.dirCluster = 0 ∨ g.Valid f.dirCluster

/-- The handle and its chain are as before, and what was free is free. -/
structure Consistent (g : Geometry) (d : Device) (f : File) (l : List ℕ) (d' : Device)
    (f' : File) : Prop where
  size : f'.size = f.size
  position : f'.position = f.position
  startCluster : f'.startCluster = f.startCluster
  chain : l ≠ [] → FatChain g (cell g d'.byte) f'.startCluster l
  free : ∀ x, g.Valid x → cell g d.byte x = 0 → cell g d'.byte x = 0

/-- The clusters that `Harlin_Write` asks for. -/
def neededClusters (g : Geometry) (f : File) (len : ℕ) : ℕ :=
  (f.position+len+g.clusterSize-1) % 2^32/g.clusterSize

/-- No cluster is added to a chain that is not empty: the chain is long enough, and then the
count of its clusters does not overflow, or the disk is full. To an empty chain either all
clusters are added that are looked for, or none. -/
def RollsBack (g : Geometry) (d : Device) (f : File) (l : List ℕ) (len : ℕ) : Prop :=
  let free := freeClusters g (cell g d.byte)
  let needed := neededClusters g f len
  if l = [] then free = ∅ ∨ missing l needed ≤ free.card
  else if needed ≤ l.length then f.size+g.clusterSize ≤ 2^32
  else free = ∅

lemma OpenFile.cell_ne_zero (h : OpenFile g d f l) (hx : x ∈ l) : cell g d.byte x ≠ 0 :=
  (h.chain (ne_nil_of_mem hx)).cell_ne_zero hx

lemma ExtendedFile.unchanged (h : OpenFile g d f l) (he : ExtendedFile g d f l needed [] r) :
    r.2.2 = f ∧ (l ≠ [] → FatChain g (cell g r.2.1.byte) f.startCluster l) ∧ ∀ x, g.Valid x →
    cell g d.byte x = 0 → cell g r.2.1.byte x = 0 := by
  have hfl : r.2.2 = f := by
    rcases he.file with ⟨-,hbad,-⟩ | ⟨-,hsm⟩
    · exact absurd rfl hbad
    · exact hsm
  refine ⟨hfl,fun hne => ?_,fun x hx hzr => ?_⟩
  · have hch := he.chain (by simpa using hne)
    rwa [List.append_nil,hfl] at hch
  · have hxl : x ∉ l := fun hmem => h.cell_ne_zero hmem hzr
    rw [he.grown.others x hx.2 (by simp) hxl,hzr]

lemma consistent_of_extension (h : OpenFile g d f l)
    (he : ExtendedFile g d f l (neededClusters g f len) new r) (hfl : r.1 = false) :
    Consistent g d f l r.2.1 r.2.2 ↔ RollsBack g d f l len := by
  have hen := he.grown.enough (fun x hx => h.cell_ne_zero hx) he.result
  have hnot : ¬ missing l (neededClusters g f len) ≤ (freeClusters g (cell g d.byte)).card := by
    rw [← hen,hfl]
    simp
  have hem : new = [] ↔ freeClusters g (cell g d.byte) = ∅ := by
    constructor
    · rintro rfl
      rcases he.result with ⟨hok,-⟩ | ⟨-,-,hfu⟩
      · rw [hfl] at hok
        cases hok
      · refine Finset.eq_empty_of_forall_notMem fun x hx => ?_
        obtain ⟨hvl,hzr⟩ := mem_freeClusters.mp hx
        exact hfu x hvl ((he.unchanged h).2.2 x hvl hzr)
    · intro hfr
      by_contra hne
      exact he.grown.free_ne_empty hne hfr
  have hrl : RollsBack g d f l len ↔ freeClusters g (cell g d.byte) = ∅ := by
    simp only [RollsBack]
    split_ifs with hl hnd
    · exact or_iff_left hnot
    · refine absurd ?_ hnot
      rw [missing,if_neg hl]
      omega
    · exact Iff.rfl
  rw [hrl,← hem]
  constructor
  · intro hc
    refine List.eq_nil_iff_forall_not_mem.mpr fun x hx => ?_
    obtain ⟨hvl,hzr⟩ := he.grown.free x hx
    have hmem : x ∈ l ++ new := by simp [hx]
    exact (he.chain (ne_nil_of_mem hmem)).cell_ne_zero hmem (hc.free x hvl hzr)
  · rintro rfl
    obtain ⟨hfi,hch,hfr⟩ := he.unchanged h
    rw [hfi]
    exact ⟨rfl,rfl,rfl,hch,hfr⟩

lemma chain_of_cellSet (hset : CellSet g z fat32Eoc d e)
    (h : FatChain g (cell g d.byte) c (l ++ [z])) : FatChain g (cell g e.byte) c (l ++ [z]) := by
  refine h.congr_follow fun x hx => ?_
  have hcl := hset.cell x (h.valid x hx).2
  by_cases hxz : x = z
  · subst hxz
    rw [if_pos rfl] at hcl
    have heoc : fat32Eoc ≤ cell g e.byte x := by rw [hcl]; exact le_refl _
    rw [follow,follow,if_pos heoc,if_pos h.concat]
  · rw [if_neg hxz] at hcl
    rw [follow,follow,hcl]

lemma ExtendedFile.ne_nil (he : ExtendedFile g d f l needed new r) (hok : r.1 = true) :
    new.length = missing l needed ∧ l ++ new ≠ [] := by
  have hlen : new.length = missing l needed := by
    rcases he.result with ⟨-,hlen⟩ | ⟨hbad,-⟩
    · exact hlen
    · rw [hok] at hbad
      cases hbad
  refine ⟨hlen,fun hnil => ?_⟩
  obtain ⟨rfl,rfl⟩ := List.append_eq_nil_iff.mp hnil
  rw [missing,if_pos rfl,length_nil] at hlen
  omega

lemma FatChain.start_mem (h : FatChain g fat c l) (hne : l ≠ []) : c ∈ l := by
  obtain ⟨x,m,rfl⟩ := exists_cons_of_ne_nil hne
  rw [h.head]
  exact List.mem_cons_self

lemma cursorReset_same (f : File) : SameFile f (cursorReset f) := by
  rw [cursorReset]
  split_ifs <;> exact ⟨rfl,rfl,rfl,rfl⟩

lemma ExtendedFile.atChain (h : OpenFile g d f l) (he : ExtendedFile g d f l needed new r)
    (hne : l ++ new ≠ []) : AtChain (l ++ new) (cursorReset r.2.2).currentCluster := by
  have hst := (he.chain hne).start_mem hne
  rw [cursorReset]
  split_ifs with hrs
  · exact .inl hst
  rcases he.file with ⟨-,-,hfl⟩ | ⟨-,hfl⟩
  · rw [hfl]
    exact .inl hst
  · rw [hfl] at hrs ⊢
    rcases h.current with hzr | hmem | heoc
    · exact absurd (.inl hzr) hrs
    · exact .inl (List.mem_append_left _ hmem)
    · exact absurd (.inr heoc) hrs

lemma consistent_of_rollback (hg : g.Sound) (hd : FatServed g d) (h : OpenFile g d f l)
    (he : ExtendedFile g d f l (neededClusters g f len) new r) (hok : r.1 = true)
    {d₂ : Device} {f₂ : File} (hdt : DataOnly g r.2.1 d₂)
    (hf₂ : f₂.startCluster = r.2.2.startCluster)
    (hro : rollback g fuel d₂ f f₂ = some (none,d',f')) :
    Consistent g d f l d' f' ↔ RollsBack g d f l len := by
  obtain ⟨hlen,hne⟩ := he.ne_nil hok
  have hen := (he.grown.enough (fun x hx => h.cell_ne_zero hx) he.result).mp hok
  have hsr := hdt.served (he.grown.only.served hd)
  have hch : FatChain g (cell g d₂.byte) f₂.startCluster (l ++ new) := by
    rw [hf₂]
    exact (he.chain hne).congr fun x hx => hdt.cell hg ((he.chain hne).valid x hx).2
  have hot (x : ℕ) (hx : g.Valid x) (hzr : cell g d.byte x = 0) (hnew : x ∉ new) :
      cell g d₂.byte x = 0 := by
    have hxl : x ∉ l := fun hmem => h.cell_ne_zero hmem hzr
    rw [hdt.cell hg hx.2,he.grown.others x hx.2 hnew hxl,hzr]
  obtain ⟨t,ht,heq⟩ := Option.map_eq_some_iff.mp hro
  obtain ⟨rfl,rfl⟩ := heq
  by_cases hl : l = []
  · -- the whole chain is new and is freed again
    subst hl
    have hst := h.empty rfl
    rw [if_pos hst] at ht
    have hfr : Freed g new d₂ t.2 := truncateFileAt_all hg hsr hch hne ht
    refine iff_of_true ⟨rfl,rfl,by simp [hst],by simp,fun x hx hzr => ?_⟩ ?_
    · rw [hfr.cell x hx.2]
      by_cases hnew : x ∈ new
      · rw [if_pos hnew]
      · rw [if_neg hnew,hot x hx hzr hnew]
    · exact .inr hen
  · have hst : f.startCluster ≠ 0 := by
      obtain ⟨x,m,rfl⟩ := exists_cons_of_ne_nil hl
      rw [(h.chain hl).head]
      have hx := ((h.chain hl).valid x (by simp)).1
      omega
    have hf₂f : f₂.startCluster = f.startCluster := by
      rcases he.file with ⟨hbad,-⟩ | ⟨-,hfl⟩
      · exact absurd hbad hl
      · rw [hf₂,hfl]
    have hlen' : new.length = neededClusters g f len-l.length := by
      rw [hlen,missing,if_neg hl]
    rw [if_neg hst] at ht
    simp only [RollsBack,if_neg hl]
    simp only [if_neg hst]
    have hsz := h.size
    have hsi := h.size_lt
    by_cases hwr : f.size+g.clusterSize ≤ 2^32
    · have htr : (f.size+g.clusterSize-1) % 2^32/g.clusterSize = l.length := by
        rw [Nat.mod_eq_of_lt (by omega),hsz]
      rw [htr] at ht
      rcases truncateFileAt_spec hg _ hsr hch hne ht with
        ⟨hnew,hfr⟩ | ⟨hnew,m,z,hmz,hset⟩
      · -- something was added: the last cluster that stays points at a freed one
        have hnew' : new ≠ [] := hnew.resolve_left hl
        obtain ⟨y,rest,rfl⟩ := exists_cons_of_ne_nil hnew'
        have hnd : ¬ neededClusters g f len ≤ l.length := by
          rw [length_cons] at hlen'
          omega
        rw [if_neg hnd]
        refine iff_of_false (fun hc => ?_) fun hfe => ?_
        · obtain ⟨m,z,rfl⟩ := List.eq_nil_or_concat' l |>.resolve_left hl
          have hz : g.Valid z := hch.valid z (by simp)
          have hend := (hc.chain hl).concat
          have hzn : z ∉ y :: rest := by
            intro hmem
            have hno := hch.nodup
            rw [List.nodup_append] at hno
            exact hno.2.2 z (by simp) z hmem rfl
          rw [hfr.cell z hz.2,if_neg hzn] at hend
          rw [List.append_assoc] at hch
          have hnx : cell g d₂.byte z = y := hch.concat_next hg
          have hy := hg.lt_eoc (hch.valid y (by simp)).2
          omega
        · exact he.grown.free_ne_empty hnew' hfe
      · subst hnew
        have hnd : neededClusters g f len ≤ l.length := by
          rw [length_nil] at hlen'
          omega
        rw [if_pos hnd]
        rw [List.append_nil] at hch
        refine iff_of_true ⟨rfl,rfl,hf₂f,fun _ => ?_,fun x hx hzr => ?_⟩ hwr
        · rw [hmz] at hch ⊢
          exact chain_of_cellSet hset hch
        · have hxz : x ≠ z := by
            rintro rfl
            exact h.cell_ne_zero (by simp [hmz]) hzr
          rw [hset.cell x hx.2,if_neg hxz,hot x hx hzr (by simp)]
    · -- the count of the clusters overflows and the whole chain is freed
      have htr : (f.size+g.clusterSize-1) % 2^32/g.clusterSize = 0 := by
        have hmod : (f.size+g.clusterSize-1) % 2^32 = f.size+g.clusterSize-1-2^32 := by
          have hle : g.clusterSize ≤ 512*8 := Nat.mul_le_mul_left _ hg.cluster_le
          omega
        exact Nat.div_eq_of_lt (by omega)
      rw [htr] at ht
      have hfr := truncateFileAt_all hg hsr hch hne ht
      refine iff_of_false (fun hc => ?_) fun hrl => ?_
      · obtain ⟨x,m,rfl⟩ := exists_cons_of_ne_nil hl
        refine (hc.chain hl).cell_ne_zero (x := x) (by simp) ?_
        rw [hfr.cell x (hch.valid x (by simp)).2,if_pos (by simp)]
      · split_ifs at hrl with hnd
        · exact hwr hrl
        · refine he.grown.free_ne_empty ?_ hrl
          rintro rfl
          rw [length_nil] at hlen'
          omega

/-- A failed write of a file whose chain fits its size leaves the handle and the FAT as they were
exactly if nothing was added to a chain that was not empty. -/
theorem failed_write_consistent_iff (hg : g.Sound) (hd : FatServed g d) (h : OpenFile g d f l)
    (hfail : harlinWrite g fuel d f src len = some (none,d',f')) :
    Consistent g d f l d' f' ↔ RollsBack g d f l len := by
  rw [harlinWrite] at hfail
  split_ifs at hfail with hlen
  · simp at hfail
  obtain ⟨new,he⟩ := extendFileClusters_spec hg (neededClusters g f len) hd h.empty h.chain
  have hnd : (f.position+len+g.clusterSize-1) % 2^32/g.clusterSize = neededClusters g f len :=
    rfl
  simp only [hnd] at hfail
  generalize extendFileClusters g d f (neededClusters g f len) = r at he hfail
  split_ifs at hfail with hok
  · obtain ⟨-,hne⟩ := he.ne_nil hok
    rw [writeExtended] at hfail
    obtain ⟨⟨hdt,-⟩,hsm,-⟩ := writeFileLoop_spec hg len src len (he.grown.only.served hd)
      (he.chain hne) (he.atChain h hne)
    generalize writeFileLoop g len r.2.1 (cursorReset r.2.2) src len = w at hdt hsm hfail
    have hst : w.2.2.2.startCluster = r.2.2.startCluster :=
      hsm.startCluster.trans (cursorReset_same _).startCluster
    have hdir : w.2.2.2.dirCluster = f.dirCluster := by
      rw [hsm.dirCluster,(cursorReset_same _).dirCluster]
      rcases he.file with ⟨-,-,hfl⟩ | ⟨-,hfl⟩ <;> rw [hfl]
    simp only at hfail
    split_ifs at hfail with hw hu
    · simp at hfail
    · refine consistent_of_rollback hg hd h he hok (hdt.trans ?_) ?_ hfail
      · refine updateDirectorySize_dataOnly hg ?_
        rw [hdir]
        exact h.dir
      · exact hst
    · exact consistent_of_rollback hg hd h he hok hdt hst hfail
  · simp only [Option.some.injEq,Prod.mk.injEq,true_and] at hfail
    have heq := consistent_of_extension h he (by simpa using hok)
    rwa [hfail] at heq

/-- A volume with one copy of a FAT of one sector, and clusters of one sector. -/
def smallVolume : Geometry := ⟨1,1,1,1,2⟩

lemma smallVolume_sound : smallVolume.Sound :=
  ⟨by decide,by decide,by decide,by decide,by decide⟩

/-- A file of one full cluster, number 2, with the cursor at its end. -/
def fullFile : File := ⟨2,2,512,512,0,0,false,none⟩

lemma fullFile_open (hcl : fat32Eoc ≤ cell smallVolume d.byte 2) :
    OpenFile smallVolume d fullFile [2] := by
  refine ⟨by simp,fun _ => ⟨⟨rfl,by decide,?_⟩,?_⟩,rfl,by decide,.inr (.inl (by simp [fullFile])),
    .inl rfl⟩
  · exact if_pos hcl
  · intro x hx
    rw [List.mem_singleton.mp hx]
    decide

/-- All entries of the FAT are used, and every command is carried out. -/
def fullDisk : Device := ⟨fun _ => 0xFF,0,fun _ _ => true,[]⟩

theorem failed_write_consistent_iff_full : ∃ d' f',
    harlinWrite smallVolume 1 fullDisk fullFile (fun _ => 0) 1 = some (none,d',f') ∧
    (Consistent smallVolume fullDisk fullFile [2] d' f' ↔
      RollsBack smallVolume fullDisk fullFile [2] 1) := by
  have hsm : (harlinWrite smallVolume 1 fullDisk fullFile (fun _ => 0) 1).any
      (fun r => r.1.isNone) = true := by
    decide
  obtain ⟨⟨res,d',f'⟩,hwr,hno⟩ := (Option.any_eq_true _ _).mp hsm
  obtain rfl : res = none := by simpa using hno
  refine ⟨d',f',hwr,failed_write_consistent_iff smallVolume_sound (fun _ _ _ => ⟨rfl,rfl⟩)
    (fullFile_open ?_) hwr⟩
  decide

/-- Only the clusters 0 to 2 are used, and no sector of the data area can be written. -/
def worn : Device where
  byte a := if 512 ≤ a ∧ a < 524 then
      (if a % 4 = 0 then 0xF8 else if a % 4 = 3 then 0x0F else 0xFF)
    else 0
  clock := 0
  ok _ cmd :=
    match cmd with
    | .read _ => true
    | .write s => s < 2
  clusterWrites := []

/-- Cluster 3 is added to the chain and freed again after the write has failed; the entry of
cluster 2 goes on pointing at it. -/
theorem rollback_leaves_link : ∃ d' f', FatServed smallVolume worn ∧
    OpenFile smallVolume worn fullFile [2] ∧
    harlinWrite smallVolume 2 worn fullFile (fun _ => 0) 1 = some (none,d',f') ∧
    cell smallVolume d'.byte 2 = 3 ∧ cell smallVolume d'.byte 3 = 0 ∧
    ¬ Consistent smallVolume worn fullFile [2] d' f' := by
  have hsm : (harlinWrite smallVolume 2 worn fullFile (fun _ => 0) 1).any
      (fun r => r.1.isNone ∧ cell smallVolume r.2.1.byte 2 = 3 ∧
        cell smallVolume r.2.1.byte 3 = 0) = true := by
    decide
  obtain ⟨⟨res,d',f'⟩,hwr,hp⟩ := (Option.any_eq_true _ _).mp hsm
  obtain ⟨hno,htwo,hth⟩ := of_decide_eq_true hp
  obtain rfl : res = none := by simpa using hno
  refine ⟨d',f',fun s hs n => ⟨rfl,?_⟩,fullFile_open (by decide),hwr,htwo,hth,
    fun hc => ?_⟩
  · exact decide_eq_true hs
  · have hend := (hc.chain (by simp)).concat (l := [])
    rw [htwo] at hend
    exact absurd hend (by decide)

end Rollback

end HarlinKernel.Fat32
