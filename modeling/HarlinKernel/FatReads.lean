import HarlinKernel.FatWrites

/-! Reads of a file along its chain: a handle stays at the cluster of its position, so that it does
not matter how a read is split into several. -/
namespace HarlinKernel.Fat32

variable {g : Geometry} {d : Device} {f : File} {p n i c : ℕ}

/-- Calls of `Harlin_Read` one after the other: the bytes by which each advances the position, the
disk and the handle. -/
def readAll (g : Geometry) (d : Device) (f : File) (dst : Buffer) :
    List ℕ → List UInt8 × Device × File
  | [] => ([],d,f)
  | len :: lens =>
    let r := harlinRead g d f dst len
    let rest := readAll g r.2.2.1 r.2.2.2 dst lens
    ((List.range (r.2.2.2.position-f.position)).map r.2.1 ++ rest.1,rest.2)

/-- The handle at a position, in the cluster of that position. -/
def handleAt (g : Geometry) (d : Device) (f : File) (p : ℕ) : File :=
  { f with
    position := p
    currentCluster := clusterAt g d.byte f.startCluster (p/g.clusterSize) }

/-- The chain has a cluster for each byte of the file. -/
def CoversSize (g : Geometry) (d : Device) (f : File) : Prop :=
  ∀ i < f.size, clusterAt g d.byte f.startCluster (i/g.clusterSize) < fat32Eoc

lemma copyBytes_zero (dst src : Buffer) (p : ℕ) : copyBytes dst p src 0 = dst := by
  funext i
  exact if_neg (by omega)

lemma div_mod_add (hi : p % n+i < n) : (p+i)/n = p/n ∧ (p+i) % n = p % n+i := by
  have hp := Nat.div_add_mod p n
  have hadd : p+i = n*(p/n)+(p % n+i) := by omega
  rw [hadd,Nat.mul_add_div (by omega),Nat.mul_add_mod,Nat.div_eq_of_lt hi,Nat.mod_eq_of_lt hi]
  exact ⟨Nat.add_zero _,rfl⟩

lemma readFileLoop_exact (hsz : 0 < g.clusterSize) (len fuel : ℕ) (dst : Buffer) (done : ℕ)
    (hd : d.Reliable)
    (hch : ∀ i < p+n, clusterAt g d.byte f.startCluster (i/g.clusterSize) < fat32Eoc)
    (hlt : p+n < 2^32) (hfl : n ≤ fuel) :
    ∃ k,
      readFileLoop g len fuel d (handleAt g d f p) dst done n =
        (copyBytes dst done (fun i => fileByte g d f (p+i)) n,0,d.tick k,handleAt g d f (p+n)) := by
  induction fuel generalizing d p n dst done with
  | zero =>
    obtain rfl := Nat.le_zero.1 hfl
    exact ⟨0,by rw [copyBytes_zero]; rfl⟩
  | succ fuel ih =>
    by_cases hzr : n = 0
    · subst hzr
      exact ⟨0,by rw [copyBytes_zero]; rfl⟩
    have hmod : p % g.clusterSize < g.clusterSize := Nat.mod_lt _ hsz
    obtain ⟨m,hm⟩ : ∃ m, m = min (g.clusterSize-p % g.clusterSize) n := ⟨_,rfl⟩
    obtain ⟨k,f₁,dst₁,hrn,hf₁,hdst₁⟩ := readFileLoop_round (f := handleAt g d f p) len fuel dst
      done hd ⟨by omega,hch p (by omega)⟩ hlt hm
    -- the handle moves with the position, over the end of the cluster or not
    have hmv : f₁ = handleAt g (d.tick k) f (p+m) := by
      rw [hf₁]
      simp only [handleAt,tick_byte,File.mk.injEq,true_and,and_true]
      have hp := Nat.div_add_mod p g.clusterSize
      by_cases hfu : p % g.clusterSize+m = g.clusterSize
      · have hnx : p+m = g.clusterSize*(p/g.clusterSize+1) := by
          rw [Nat.mul_succ]
          omega
        have hend : (p+m) % g.clusterSize = 0 := by rw [hnx,Nat.mul_mod_right]
        refine (if_pos hend).trans ?_
        rw [hnx,Nat.mul_div_cancel_left _ hsz,clusterAt,clusterAt,Function.iterate_succ_apply']
      · obtain ⟨hdiv,hmod'⟩ := div_mod_add (show p % g.clusterSize+m < g.clusterSize by omega)
        have hgs : (p+m) % g.clusterSize ≠ 0 := by omega
        exact (if_neg hgs).trans (by rw [hdiv])
    have hby : dst₁ = copyBytes dst done (fun i => fileByte g d f (p+i)) m := by
      rw [hdst₁]
      funext a
      simp only [copyBytes]
      split_ifs with ha
      · obtain ⟨hdiv,hmod'⟩ :=
          div_mod_add (show p % g.clusterSize+(a-done) < g.clusterSize by omega)
        rw [fileByte,hdiv,hmod']
        rfl
      · rfl
    obtain ⟨k',hk'⟩ := ih dst₁ (done+m) (hd.tick k) (p := p+m) (n := n-m)
      (fun i hi => hch i (by omega)) (by omega) (by omega)
    refine ⟨k+k',?_⟩
    have hrs : (fun i => fileByte g (d.tick k) f (p+m+i)) =
        fun i => (fun i => fileByte g d f (p+i)) (i+m) := by
      funext i
      rw [Nat.add_assoc,Nat.add_comm m]
      rfl
    rw [hrn,hmv,hk',hrs,hby,copyBytes_append,tick_tick,show m+(n-m) = n by omega,
      show p+m+(n-m) = p+n by omega]
    rfl

/-- A read stores the bytes from the position on, up to the end of the file, and leaves the handle
at the cluster behind them. -/
theorem harlinRead_exact (hsz : 0 < g.clusterSize) (dst : Buffer) (hd : d.Reliable)
    (hds : f.ramfs = none) (hch : CoversSize g d f) (hp : p ≤ f.size) (hlt : p+n < 2^32)
    (hfl : f.size < 2^32) :
    ∃ r k,
      harlinRead g d (handleAt g d f p) dst n =
        (r,copyBytes dst 0 (fun i => fileByte g d f (p+i)) (min n (f.size-p)),d.tick k,
           handleAt g d f (p+min n (f.size-p))) := by
  have hsm : (handleAt g d f p).size = f.size ∧ (handleAt g d f p).position = p ∧
      (handleAt g d f p).ramfs = none := ⟨rfl,rfl,hds⟩
  have hcl : (if f.size < p+n then f.size-p else n) = min n (f.size-p) := by
    split_ifs <;> omega
  rw [harlinRead,hsm.1,hsm.2.1,hsm.2.2,Nat.mod_eq_of_lt hlt,hcl]
  obtain ⟨m,hm⟩ : ∃ m, m = min n (f.size-p) := ⟨_,rfl⟩
  rw [← hm]
  split_ifs with heof
  · rw [show m = 0 by omega,copyBytes_zero]
    exact ⟨_,0,rfl⟩
  · obtain ⟨k,hk⟩ := readFileLoop_exact (p := p) hsz n m dst 0 hd
      (fun i hi => hch i (by omega)) (by omega) le_rfl
    simp only [hk]
    exact ⟨_,k,rfl⟩

lemma readAll_exact (hsz : 0 < g.clusterSize) (dst : Buffer) (hd : d.Reliable)
    (hds : f.ramfs = none) (hch : CoversSize g d f) (hp : p ≤ f.size) (lens : List ℕ)
    (hlt : lens.sum+f.size < 2^32) :
    ∃ k,
      readAll g d (handleAt g d f p) dst lens =
        ((List.range (min lens.sum (f.size-p))).map fun i => fileByte g d f (p+i),d.tick k,
           handleAt g d f (p+min lens.sum (f.size-p))) := by
  induction lens generalizing d p with
  | nil => exact ⟨0,by simp [readAll]; rfl⟩
  | cons n lens ih =>
    rw [List.sum_cons] at hlt ⊢
    obtain ⟨r,k,hrd⟩ := harlinRead_exact (n := n) hsz dst hd hds hch hp (by omega)
      (by omega)
    obtain ⟨k',hrs⟩ := ih (d := d.tick k) (hd.tick k) hch (p := p+min n (f.size-p)) (by omega)
      (by omega)
    obtain ⟨m,hm⟩ : ∃ m, m = min n (f.size-p) := ⟨_,rfl⟩
    obtain ⟨m',hm'⟩ : ∃ m', m' = min lens.sum (f.size-(p+m)) := ⟨_,rfl⟩
    rw [← hm] at hrd hrs
    rw [← hm'] at hrs
    have hby : (List.range m).map (copyBytes dst 0 (fun i => fileByte g d f (p+i)) m) =
        (List.range m).map fun i => fileByte g d f (p+i) := by
      refine List.map_congr_left fun i hi => ?_
      rw [copyBytes,if_pos (by simpa using hi),Nat.sub_zero]
    refine ⟨k+k',?_⟩
    rw [readAll,hrd,show min (n+lens.sum) (f.size-p) = m+m' by omega,List.range_add]
    simp only [show handleAt g d f (p+m) = handleAt g (d.tick k) f (p+m) from rfl,hrs]
    simp only [handleAt,Nat.add_sub_cancel_left,hby,List.map_append,List.map_map,tick_tick,
      tick_byte,Nat.add_assoc]
    rfl

/-- Reads of a file from its start deliver its bytes in order, and leave the handle where one read
of the same length does. -/
theorem reads_split_anywhere (hsize : 0 < g.sectorsPerCluster) (hd : d.Reliable)
    (hdisk : f.ramfs = none) (hposition : f.position = 0)
    (hcurrent : f.currentCluster = f.startCluster) (hchain : CoversSize g d f) (dst : Buffer)
    (lens : List ℕ) (hlt : lens.sum+f.size < 2^32) :
    (readAll g d f dst lens).1 = (List.range (min f.size lens.sum)).map (fileByte g d f) ∧
      (readAll g d f dst lens).2.2.position = (harlinRead g d f dst lens.sum).2.2.2.position ∧
      (readAll g d f dst lens).2.2.currentCluster =
        (harlinRead g d f dst lens.sum).2.2.2.currentCluster := by
  have hpos : 0 < g.clusterSize := by
    rw [Geometry.clusterSize]
    omega
  have hfr : handleAt g d f 0 = f := by
    cases f
    simp only at hposition hcurrent
    subst hposition hcurrent
    simp [handleAt,clusterAt]
  obtain ⟨k,hall⟩ := readAll_exact hpos dst hd hdisk hchain (Nat.zero_le _) lens hlt
  obtain ⟨r,k',hone⟩ := harlinRead_exact (n := lens.sum) hpos dst hd hdisk hchain
    (Nat.zero_le _) (by omega) (by omega)
  rw [hfr] at hall hone
  rw [hall,hone]
  simp [Nat.min_comm]

/-- A file of two clusters. -/
def twoClusters : File := ⟨2,2,0,514,2,0,false,none⟩

/-- The second of three reads goes over the end of the first cluster. -/
theorem reads_split_anywhere_two_clusters :
    CoversSize ⟨1,1,1,1,2⟩ (rootDisk 3) twoClusters ∧
      clusterAt ⟨1,1,1,1,2⟩ (rootDisk 3).byte 2 1 = 3 ∧
      ∀ dst, (readAll ⟨1,1,1,1,2⟩ (rootDisk 3) twoClusters dst [511,2,1]).1 =
        (List.range 514).map (fileByte ⟨1,1,1,1,2⟩ (rootDisk 3) twoClusters) := by
  have hnx : cell ⟨1,1,1,1,2⟩ (rootDisk 3).byte 2 = 3 := by decide
  have hch : CoversSize ⟨1,1,1,1,2⟩ (rootDisk 3) twoClusters := by
    intro i hi
    have hsz : Geometry.clusterSize ⟨1,1,1,1,2⟩ = 512 := rfl
    have hfl : twoClusters.size = 514 := rfl
    rcases (by omega : i / 512 = 0 ∨ i / 512 = 1) with hk | hk
    · rw [hsz,hk]
      decide
    · rw [hsz,hk]
      decide
  refine ⟨hch,hnx,fun dst => ?_⟩
  exact (reads_split_anywhere (by decide) (fun _ _ => rfl) rfl rfl rfl hch dst [511,2,1]
    (by decide)).1

end HarlinKernel.Fat32
