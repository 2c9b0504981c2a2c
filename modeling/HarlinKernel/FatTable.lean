import HarlinKernel.Fat32
import HarlinKernel.LinkedTree

/-! The file allocation table as a function from clusters to their successors: what the functions
of `fs/fat32.c` that read and write it do to that function, as long as the disk carries out the
commands for the sectors in front of the data area. -/
namespace HarlinKernel.Fat32

open Function (update_of_ne)
section Bytes

variable {b b' src : Buffer} {i j n v : ℕ}

lemma copyBytes_of_lt (h : j < i) : copyBytes b i src n j = b j := by
  rw [copyBytes,if_neg (by omega)]

lemma copyBytes_of_ge (h : i+n ≤ j) : copyBytes b i src n j = b j := by
  rw [copyBytes,if_neg (by omega)]

lemma readLe32_congr (h : ∀ k < 4, b' (j+k) = b (i+k)) : readLe32 b' j = readLe32 b i := by
  have h0 := h 0 (by omega)
  have h1 := h 1 (by omega)
  have h2 := h 2 (by omega)
  have h3 := h 3 (by omega)
  simp only [readLe32,h1,h2,h3]
  rw [show b' j = b i from h0]

lemma writeLe32_of_ne (h : j < i ∨ i+4 ≤ j) : writeLe32 b i v j = b j := by
  have h0 : j ≠ i := by omega
  have h1 : j ≠ i+1 := by omega
  have h2 : j ≠ i+2 := by omega
  have h3 : j ≠ i+3 := by omega
  simp [writeLe32,setByte,update_of_ne h0,update_of_ne h1,update_of_ne h2,update_of_ne h3]

lemma readLe32_writeLe32 : readLe32 (writeLe32 b i v) i = v % 2^32 := by
  have h01 : i ≠ i+1 := by omega
  have h02 : i ≠ i+2 := by omega
  have h03 : i ≠ i+3 := by omega
  have h12 : i+1 ≠ i+2 := by omega
  have h13 : i+1 ≠ i+3 := by omega
  have h23 : i+2 ≠ i+3 := by omega
  simp only [readLe32,writeLe32,setByte,Function.update_self,update_of_ne h01,
    update_of_ne h02,update_of_ne h03,update_of_ne h12,
    update_of_ne h13,update_of_ne h23,UInt8.toNat_ofNat']
  omega

lemma readLe32_writeLe32_of_ne (h : j+4 ≤ i ∨ i+4 ≤ j) :
    readLe32 (writeLe32 b i v) j = readLe32 b j :=
  readLe32_congr fun k hk => writeLe32_of_ne (by omega)

lemma copyBytes_writeLe32 {off : ℕ} (hoff : off+4 ≤ n) :
    copyBytes b i (writeLe32 (fun k => b (i+k)) off v) n = writeLe32 b (i+off) v := by
  funext a
  by_cases ha : i ≤ a ∧ a < i+n
  · rw [copyBytes,if_pos ha]
    have hsp : i+(a-i) = a := by omega
    by_cases hin : a < i+off ∨ i+off+4 ≤ a
    · rw [writeLe32_of_ne hin,writeLe32_of_ne (by omega),hsp]
    · have hsub : a-i = off ∨ a-i = off+1 ∨ a-i = off+2 ∨ a-i = off+3 := by omega
      have ha' : a = i+off ∨ a = i+off+1 ∨ a = i+off+2 ∨ a = i+off+3 := by omega
      rcases hsub with h | h | h | h <;> rw [h] <;>
        rcases ha' with h' | h' | h' | h' <;> rw [h'] <;>
        first
          | omega
          | simp [writeLe32,setByte]
  · rw [copyBytes,if_neg ha,writeLe32_of_ne (by omega)]

end Bytes

variable {lo hi fat s k i x : ℕ} {e : Device}

section Commands

variable {d : Device} {sector count : ℕ} {buf : Buffer}

@[simp] lemma tick_byte (n : ℕ) : (d.tick n).byte = d.byte := rfl
@[simp] lemma tick_ok (n : ℕ) : (d.tick n).ok = d.ok := rfl
@[simp] lemma tick_tick (m n : ℕ) : (d.tick m).tick n = d.tick (m+n) := by
  simp [Device.tick,Nat.add_assoc]

/-- The commands for a sector are carried out at any time. -/
def Device.Serves (d : Device) (sector : ℕ) : Prop :=
  ∀ n, d.ok n (.read sector) = true ∧ d.ok n (.write sector) = true

lemma readLoop_ok (h : ∀ i < count, d.Serves (sector+i)) :
    readLoop d sector count = (true,d.tick count) := by
  induction count generalizing d sector with
  | zero => rfl
  | succ n ih =>
    have h0 := (h 0 (by omega) d.clock).1
    rw [Nat.add_zero] at h0
    have hrs : ∀ i < n, (d.tick 1).Serves (sector+1+i) := by
      intro i hi
      have hnx := h (i+1) (by omega)
      rw [show sector+(i+1) = sector+1+i by omega] at hnx
      exact hnx
    rw [readLoop,if_pos h0,ih hrs,tick_tick,Nat.add_comm 1 n]

lemma ataReadSectors_ok (h : ∀ i < count, d.Serves (sector+i)) :
    ataReadSectors d sector count = (some fun i => d.byte (512*sector+i),d.tick count) := by
  simp [ataReadSectors,readLoop_ok h]

lemma readLoop_tick (d : Device) (sector count : ℕ) :
    ∃ n, (readLoop d sector count).2 = d.tick n := by
  induction count generalizing d sector with
  | zero => exact ⟨0,rfl⟩
  | succ n ih =>
    rw [readLoop]
    split_ifs
    · obtain ⟨m,hm⟩ := ih (d.tick 1) (sector+1)
      exact ⟨1+m,by rw [hm,tick_tick]⟩
    · exact ⟨1,rfl⟩

lemma ataReadSectors_tick (d : Device) (sector count : ℕ) :
    ∃ n, (ataReadSectors d sector count).2 = d.tick n :=
  readLoop_tick d sector count

lemma copyBytes_append {b : Buffer} {m n : ℕ} : copyBytes (copyBytes b sector buf m) (sector+m)
    (fun i => buf (i+m)) n = copyBytes b sector buf (m+n) := by
  funext a
  simp only [copyBytes]
  split_ifs <;> first | rfl | omega | (congr 1; omega)

lemma writeLoop_ok (h : ∀ i < count, d.Serves (sector+i)) :
    writeLoop buf d sector count =
      (true,{ d.tick count with byte := copyBytes d.byte (512*sector) buf (512*count) }) := by
  induction count generalizing d sector buf with
  | zero =>
    have hno : copyBytes d.byte (512*sector) buf (512*0) = d.byte := by
      funext a
      exact if_neg (by omega)
    rw [writeLoop,hno]
    rfl
  | succ n ih =>
    have h0 := (h 0 (by omega) d.clock).2
    rw [Nat.add_zero] at h0
    obtain ⟨e,he⟩ : ∃ e : Device, e = { d with byte := copyBytes d.byte (512*sector) buf 512 } :=
      ⟨_,rfl⟩
    have hrs : ∀ i < n, (e.tick 1).Serves (sector+1+i) := by
      intro i hi
      have hnx := h (i+1) (by omega)
      rw [show sector+(i+1) = sector+1+i by omega] at hnx
      rw [he]
      exact hnx
    have hby : copyBytes e.byte (512*(sector+1)) (fun i => buf (i+512)) (512*n) =
        copyBytes d.byte (512*sector) buf (512*(n+1)) := by
      rw [he,show 512*(sector+1) = 512*sector+512 by ring,copyBytes_append,
        show 512+512*n = 512*(n+1) by ring]
    rw [writeLoop,if_pos h0]
    rw [← he,ih hrs,tick_tick,Nat.add_comm 1 n,tick_byte,hby,he]
    rfl

/-- What happens to a disk that may fail: its bytes change only in the sectors written. -/
structure Confined (lo hi : ℕ) (d e : Device) : Prop where
  byte : ∀ a, a < 512*lo ∨ 512*hi ≤ a → e.byte a = d.byte a
  ok : e.ok = d.ok
  clusterWrites : e.clusterWrites = d.clusterWrites

lemma Confined.refl (lo hi : ℕ) (d : Device) : Confined lo hi d d := ⟨fun _ _ => rfl,rfl,rfl⟩

lemma Confined.trans {k : Device} (h : Confined lo hi d e)
    (h' : Confined lo hi e k) : Confined lo hi d k :=
  ⟨fun a ha => (h'.byte a ha).trans (h.byte a ha),h'.ok.trans h.ok,
    h'.clusterWrites.trans h.clusterWrites⟩

lemma Confined.tick (h : Confined lo hi d e) (n : ℕ) :
    Confined lo hi d (e.tick n) := ⟨h.byte,h.ok,h.clusterWrites⟩

lemma confined_read (lo hi : ℕ) (d : Device) (sector count : ℕ) :
    Confined lo hi d (ataReadSectors d sector count).2 := by
  obtain ⟨n,hn⟩ := ataReadSectors_tick d sector count
  rw [hn]
  exact (Confined.refl lo hi d).tick n

lemma confined_writeLoop (hlo : lo ≤ sector) (hhi : sector+count ≤ hi) :
    Confined lo hi d (writeLoop buf d sector count).2 := by
  induction count generalizing d sector buf with
  | zero => exact .refl lo hi d
  | succ n ih =>
    rw [writeLoop]
    split_ifs
    · have hone : Confined lo hi d
          ({ d with byte := copyBytes d.byte (512*sector) buf 512 } : Device) := by
        refine ⟨fun a ha => ?_,rfl,rfl⟩
        rcases ha with ha | ha
        · exact copyBytes_of_lt (by omega)
        · exact copyBytes_of_ge (by omega)
      dsimp only
      exact (hone.tick 1).trans (ih (by omega) (by omega))
    · exact (Confined.refl lo hi d).tick 1

end Commands

/-- The bounds that a FAT32 volume keeps: at most eight sectors a cluster, a copy of the FAT at
least, fewer clusters than the numbers that end a chain, and sector numbers that do not wrap. -/
structure Geometry.Sound (g : Geometry) : Prop where
  cluster_pos : 0 < g.sectorsPerCluster
  cluster_le : g.sectorsPerCluster ≤ 8
  fats_pos : 0 < g.numberOfFats
  cells_le : 128*g.sectorsPerFat ≤ fat32Eoc
  data_lt : g.reservedSectors+g.numberOfFats*g.sectorsPerFat < 2^31

/-- The clusters below `m` have their entries in each copy of the FAT, in sectors whose numbers do
not wrap. -/
structure Geometry.Fits (g : Geometry) (m : ℕ) : Prop where
  fats_pos : 0 < g.numberOfFats
  cells_le : m ≤ 128*g.sectorsPerFat
  small : m ≤ 2^30
  data_lt : g.reservedSectors+g.numberOfFats*g.sectorsPerFat < 2^32

section Table

variable {g : Geometry} {d : Device} {b : Buffer} {c v m : ℕ}

lemma Geometry.Fits.firstDataSector_eq (hg : g.Fits m) :
    g.firstDataSector = g.reservedSectors+g.numberOfFats*g.sectorsPerFat :=
  Nat.mod_eq_of_lt hg.data_lt

lemma Geometry.Sound.totalClusters_eq (hg : g.Sound) : g.totalClusters = 128*g.sectorsPerFat := by
  have h := hg.cells_le
  rw [Geometry.totalClusters,Nat.mod_eq_of_lt (by rw [fat32Eoc] at h; omega)]
  omega

lemma Geometry.Sound.fits (hg : g.Sound) : g.Fits g.totalClusters := by
  have hcl := hg.cells_le
  have hdt := hg.data_lt
  have htl := hg.totalClusters_eq
  rw [fat32Eoc] at hcl
  exact ⟨hg.fats_pos,by omega,by omega,by omega⟩

/-- A cluster of the data area. -/
def Geometry.Valid (g : Geometry) (c : ℕ) : Prop := 2 ≤ c ∧ c < g.totalClusters

instance (c : ℕ) : Decidable (g.Valid c) := inferInstanceAs (Decidable (_ ∧ _))

lemma Geometry.Sound.lt_eoc (hg : g.Sound) (hc : c < g.totalClusters) : c < fat32Eoc := by
  have h := hg.cells_le
  rw [hg.totalClusters_eq] at hc
  omega

/-- The first byte of an entry in a copy of the FAT. -/
def Geometry.cellAddress (g : Geometry) (fat c : ℕ) : ℕ :=
  512*(g.fatStartSector+fat*g.sectorsPerFat)+4*c

def cellAt (g : Geometry) (b : Buffer) (fat c : ℕ) : ℕ :=
  readLe32 b (g.cellAddress fat c) % 2^28

/-- The entry in the first copy, which is the one that is read. -/
def cell (g : Geometry) (b : Buffer) (c : ℕ) : ℕ := cellAt g b 0 c

lemma Geometry.Fits.cell_sector (hg : g.Fits m) (hc : c < m) (fat : ℕ) :
    512*(g.fatStartSector+fat*g.sectorsPerFat+fatSector c)+fatOffset c = g.cellAddress fat c ∧
    fatSector c < g.sectorsPerFat ∧ fatOffset c+4 ≤ 512 := by
  have hcl := hg.cells_le
  have hbn := hg.small
  have hsm : c*4 % 2^32 = c*4 := Nat.mod_eq_of_lt (by omega)
  rw [fatSector,fatOffset,hsm,Geometry.cellAddress]
  omega

/-- The commands for the sectors in front of the data area are carried out. -/
def FatServed (g : Geometry) (d : Device) : Prop := ∀ s < g.firstDataSector, d.Serves s

lemma Geometry.Fits.fat_sector_lt (hg : g.Fits m) (hfat : fat < g.numberOfFats)
    (hs : s < g.sectorsPerFat) : g.fatStartSector+fat*g.sectorsPerFat+s < g.firstDataSector := by
  have hmul : (fat+1)*g.sectorsPerFat ≤ g.numberOfFats*g.sectorsPerFat :=
    Nat.mul_le_mul_right _ hfat
  rw [hg.firstDataSector_eq,Geometry.fatStartSector]
  rw [Nat.add_mul] at hmul
  omega

lemma readSector_ok (h : d.Serves s) :
    readSector d s = (some fun i => d.byte (512*s+i),d.tick 1) := by
  refine ataReadSectors_ok fun i hi => ?_
  rwa [show s+i = s by omega]

lemma writeSector_ok {buf : Buffer} (h : d.Serves s) :
    writeSector d s buf = (true,{ d.tick 1 with byte := copyBytes d.byte (512*s) buf 512 }) := by
  refine writeLoop_ok fun i hi => ?_
  rwa [show s+i = s by omega]

lemma readLe32_shift (k i : ℕ) : readLe32 (fun j => b (k+j)) i = readLe32 b (k+i) := rfl

lemma nextCluster_ok (hg : g.Fits m) (hd : FatServed g d) (hc : c < m) :
    nextCluster g d c = (cell g d.byte c,d.tick 1) := by
  obtain ⟨had,hsc,_⟩ := hg.cell_sector hc 0
  have hlt := hg.fat_sector_lt hg.fats_pos hsc
  rw [Nat.zero_mul,Nat.add_zero] at had hlt
  rw [nextCluster,readSector_ok (hd _ hlt)]
  simp only [readLe32_shift,had]
  rfl

/-- The entries of a cluster in `n` copies of the FAT, from number `fat` on, set to a value. -/
def setCells (g : Geometry) (c v fat : ℕ) : ℕ → Buffer → Buffer
  | 0, b => b
  | n+1, b => setCells g c v (fat+1) n (writeLe32 b (g.cellAddress fat c) (v % 2^28))

lemma writeFatCopies_ok (hg : g.Fits m) (hc : c < m) (fat n : ℕ) (hd : FatServed g d)
    (hn : fat+n ≤ g.numberOfFats) : writeFatCopies g c v fat n d =
    (true,{ d.tick (2*n) with byte := setCells g c v fat n d.byte }) := by
  induction n generalizing d fat with
  | zero => rfl
  | succ n ih =>
    obtain ⟨had,hsc,hof⟩ := hg.cell_sector hc fat
    have hsr := hd _ (hg.fat_sector_lt (show fat < g.numberOfFats by omega) hsc)
    rw [writeFatCopies,readSector_ok hsr]
    simp only
    rw [writeSector_ok (show (d.tick 1).Serves _ from hsr)]
    simp only [tick_byte,tick_tick,if_true]
    rw [copyBytes_writeLe32 hof,had]
    obtain ⟨e,he⟩ : ∃ e : Device, e =
        { d.tick (1+1) with byte := writeLe32 d.byte (g.cellAddress fat c) (v % 2^28) } := ⟨_,rfl⟩
    rw [← he,ih (fat+1) (by rw [he]; exact hd) (by omega)]
    subst he
    simp only [Device.tick,setCells,Prod.mk.injEq,true_and]
    rw [show d.clock+(1+1)+2*n = d.clock+2*(n+1) by ring]

lemma writeFatEntry_ok (hg : g.Fits m) (hd : FatServed g d) (hc : c < m) :
    writeFatEntry g d c v =
      (true,{ d.tick (2*g.numberOfFats) with byte := setCells g c v 0 g.numberOfFats d.byte }) :=
  writeFatCopies_ok hg hc 0 g.numberOfFats hd (by omega)

lemma Geometry.copy_apart (g : Geometry) (hne : k ≠ fat) (hi : i < 512*g.sectorsPerFat) :
    512*(g.fatStartSector+k*g.sectorsPerFat)+i < 512*(g.fatStartSector+fat*g.sectorsPerFat) ∨
    512*(g.fatStartSector+(fat+1)*g.sectorsPerFat) ≤
      512*(g.fatStartSector+k*g.sectorsPerFat)+i := by
  rcases Nat.lt_or_gt_of_ne hne with hlt | hlt
  · have hmul : (k+1)*g.sectorsPerFat ≤ fat*g.sectorsPerFat := Nat.mul_le_mul_right _ hlt
    rw [Nat.add_mul] at hmul
    omega
  · have hmul : (fat+1)*g.sectorsPerFat ≤ k*g.sectorsPerFat := Nat.mul_le_mul_right _ hlt
    omega

lemma Geometry.Fits.cell_apart (hg : g.Fits m) (hx : x < 128*g.sectorsPerFat) (hc : c < m)
    (hne : k ≠ fat ∨ x ≠ c) :
    g.cellAddress k x+4 ≤ g.cellAddress fat c ∨ g.cellAddress fat c+4 ≤ g.cellAddress k x := by
  have hcl := hg.cells_le
  rw [Geometry.cellAddress,Geometry.cellAddress]
  by_cases heq : k = fat
  · subst heq
    omega
  · have hap := g.copy_apart (i:=4*x+3) heq (by omega)
    rw [Nat.add_mul] at hap
    omega

lemma readLe32_setCells (hg : g.Fits m) (hc : c < m) (hx : x < 128*g.sectorsPerFat) (fat n : ℕ) :
    readLe32 (setCells g c v fat n b) (g.cellAddress k x) =
      if fat ≤ k ∧ k < fat+n ∧ x = c then v % 2^28 else readLe32 b (g.cellAddress k x) := by
  induction n generalizing fat b with
  | zero =>
    rw [if_neg (by omega)]
    rfl
  | succ n ih =>
    rw [setCells,ih]
    by_cases hlt : fat+1 ≤ k ∧ k < fat+1+n ∧ x = c
    · rw [if_pos hlt,if_pos (by omega)]
    · rw [if_neg hlt]
      by_cases hhr : k = fat ∧ x = c
      · obtain ⟨rfl,rfl⟩ := hhr
        rw [if_pos (by omega),readLe32_writeLe32]
        omega
      · rw [if_neg (by omega),readLe32_writeLe32_of_ne (hg.cell_apart hx hc (by omega))]

lemma setCells_outside (hg : g.Fits m) (hc : c < m) {a : ℕ}
    (ha : a < 512*g.reservedSectors ∨ 512*g.firstDataSector ≤ a) (fat n : ℕ)
    (hn : fat+n ≤ g.numberOfFats) : setCells g c v fat n b a = b a := by
  induction n generalizing fat b with
  | zero => rfl
  | succ n ih =>
    rw [setCells,ih (fat+1) (by omega)]
    refine writeLe32_of_ne ?_
    have hmul : (fat+1)*g.sectorsPerFat ≤ g.numberOfFats*g.sectorsPerFat :=
      Nat.mul_le_mul_right _ (by omega)
    have hcl := hg.cells_le
    rw [Nat.add_mul] at hmul
    rw [hg.firstDataSector_eq] at ha
    rw [Geometry.cellAddress,Geometry.fatStartSector]
    omega

/-- The copies of the FAT are the same, byte for byte. -/
def CopiesAgree (g : Geometry) (b : Buffer) : Prop :=
  ∀ fat < g.numberOfFats, ∀ i < 512*g.sectorsPerFat,
    b (512*(g.fatStartSector+fat*g.sectorsPerFat)+i) = b (512*g.fatStartSector+i)

lemma setCells_copy (hg : g.Fits m) (hc : c < m)
    (hi : i < 512*g.sectorsPerFat) (fat n : ℕ) :
    setCells g c v fat n b (512*(g.fatStartSector+k*g.sectorsPerFat)+i) =
      if fat ≤ k ∧ k < fat+n ∧ 4*c ≤ i ∧ i < 4*c+4 then
        writeLe32 (fun _ => 0) 0 (v % 2^28) (i-4*c)
      else b (512*(g.fatStartSector+k*g.sectorsPerFat)+i) := by
  induction n generalizing fat b with
  | zero =>
    rw [if_neg (by omega)]
    rfl
  | succ n ih =>
    rw [setCells,ih]
    have hcl := hg.cells_le
    by_cases hlt : fat+1 ≤ k ∧ k < fat+1+n ∧ 4*c ≤ i ∧ i < 4*c+4
    · rw [if_pos hlt,if_pos (by omega)]
    rw [if_neg hlt]
    by_cases hhr : k = fat ∧ 4*c ≤ i ∧ i < 4*c+4
    · obtain ⟨rfl,hlo,hhi⟩ := hhr
      have hcs : i = 4*c ∨ i = 4*c+1 ∨ i = 4*c+2 ∨ i = 4*c+3 := by omega
      rcases hcs with rfl | rfl | rfl | rfl <;>
        simp [writeLe32,setByte,Geometry.cellAddress,← Nat.add_assoc]
    rw [if_neg (by omega)]
    refine writeLe32_of_ne ?_
    rw [Geometry.cellAddress]
    by_cases heq : k = fat
    · subst heq
      omega
    · have hap := g.copy_apart heq hi
      rw [Nat.add_mul] at hap
      omega

lemma copiesAgree_setCells (hg : g.Fits m) (hc : c < m) (h : CopiesAgree g b) :
    CopiesAgree g (setCells g c v 0 g.numberOfFats b) := by
  intro fat hfat i hi
  have h0 := setCells_copy (v := v) (b := b) hg hc (k := 0) hi 0 g.numberOfFats
  rw [Nat.zero_mul,Nat.add_zero] at h0
  rw [h0,setCells_copy hg hc hi 0 g.numberOfFats,h fat hfat i hi]
  by_cases hin : 4*c ≤ i ∧ i < 4*c+4
  · rw [if_pos (by omega),if_pos (by omega)]
  · rw [if_neg (by omega),if_neg (by omega)]

/-- A change of the FAT alone, the same in each of its copies. -/
structure FatOnly (g : Geometry) (d e : Device) : Prop where
  outside : ∀ a, a < 512*g.reservedSectors ∨ 512*g.firstDataSector ≤ a → e.byte a = d.byte a
  copies : CopiesAgree g d.byte → CopiesAgree g e.byte
  ok : e.ok = d.ok
  clusterWrites : e.clusterWrites = d.clusterWrites

lemma FatOnly.refl (d : Device) : FatOnly g d d := ⟨fun _ _ => rfl,fun h => h,rfl,rfl⟩

lemma FatOnly.trans {k : Device} (h : FatOnly g d e) (h' : FatOnly g e k) : FatOnly g d k :=
  ⟨fun a ha => (h'.outside a ha).trans (h.outside a ha),fun hc => h'.copies (h.copies hc),
    h'.ok.trans h.ok,h'.clusterWrites.trans h.clusterWrites⟩

lemma FatOnly.tick (h : FatOnly g d e) (n : ℕ) : FatOnly g d (e.tick n) :=
  ⟨h.outside,h.copies,h.ok,h.clusterWrites⟩

lemma FatOnly.served (h : FatOnly g d e) (hd : FatServed g d) : FatServed g e := by
  intro s hs n
  rw [h.ok]
  exact hd s hs n

/-- An entry of the FAT has been set. -/
structure CellSet (g : Geometry) (c v : ℕ) (d e : Device) : Prop where
  cell : ∀ x < g.totalClusters,
    cell g e.byte x = if x = c then v % 2^28 else cell g d.byte x
  only : FatOnly g d e

/-- In each copy of the FAT the entry of `c`, and no other, has become `w`. -/
def EntryStored (g : Geometry) (c w : ℕ) (d e : Device) : Prop :=
  ∀ fat < g.numberOfFats, ∀ x < 128*g.sectorsPerFat, readLe32 e.byte (g.cellAddress fat x) =
    if x = c then w else readLe32 d.byte (g.cellAddress fat x)

lemma writeFatEntry_copies (hg : g.Fits m) (hd : FatServed g d) (hc : c < m) (v : ℕ) :
    (writeFatEntry g d c v).1 = true ∧ EntryStored g c (v % 2^28) d (writeFatEntry g d c v).2 ∧
      FatOnly g d (writeFatEntry g d c v).2 := by
  rw [writeFatEntry_ok hg hd hc]
  refine ⟨rfl,fun fat hfat x hx => ?_,fun a ha => ?_,copiesAgree_setCells hg hc,rfl,rfl⟩
  · simp [readLe32_setCells hg hc hx,hfat]
  · exact setCells_outside hg hc ha 0 _ (by omega)

lemma EntryStored.cell (h : EntryStored g c (v % 2^28) d e) (hft : 0 < g.numberOfFats)
    (hx : x < 128*g.sectorsPerFat) :
    cell g e.byte x = if x = c then v % 2^28 else cell g d.byte x := by
  rw [Fat32.cell,Fat32.cell,cellAt,cellAt,h 0 hft x hx]
  split_ifs <;> omega

lemma writeFatEntry_spec (hg : g.Fits g.totalClusters) (hd : FatServed g d)
    (hc : c < g.totalClusters) (v : ℕ) :
    (writeFatEntry g d c v).1 = true ∧ CellSet g c v d (writeFatEntry g d c v).2 := by
  obtain ⟨hok,hcl,hon⟩ := writeFatEntry_copies hg hd hc v
  exact ⟨hok,fun x hx => hcl.cell hg.fats_pos (hx.trans_le hg.cells_le),hon⟩

lemma findFreeFrom_spec (hg : g.Fits m) (hd : FatServed g d) (n cluster : ℕ) (hn : cluster+n ≤ m) :
    (∃ k, (findFreeFrom g cluster n d).2 = d.tick k) ∧
    (((findFreeFrom g cluster n d).1 = 0 ∧ ∀ x, cluster ≤ x → x < cluster+n → cell g d.byte x ≠ 0) ∨
      (cluster ≤ (findFreeFrom g cluster n d).1 ∧ (findFreeFrom g cluster n d).1 < cluster+n ∧
        cell g d.byte (findFreeFrom g cluster n d).1 = 0 ∧
        ∀ x, cluster ≤ x → x < (findFreeFrom g cluster n d).1 → cell g d.byte x ≠ 0)) := by
  induction n generalizing d cluster with
  | zero => exact ⟨⟨0,rfl⟩,.inl ⟨rfl,fun x hlo hhi => by omega⟩⟩
  | succ n ih =>
    obtain ⟨had,hsc,_⟩ := hg.cell_sector (show cluster < m by omega) 0
    have hlt := hg.fat_sector_lt hg.fats_pos hsc
    rw [Nat.zero_mul,Nat.add_zero] at had hlt
    have hcl : readLe32 (fun i => d.byte (512*(g.fatStartSector+fatSector cluster)+i))
        (fatOffset cluster) % 2^28 = cell g d.byte cluster := by
      rw [readLe32_shift,had]
      rfl
    rw [findFreeFrom,readSector_ok (hd _ hlt)]
    simp only [hcl]
    split_ifs with hzr
    · exact ⟨⟨1,rfl⟩,.inr ⟨le_refl _,by omega,hzr,fun x hlo hhi => by omega⟩⟩
    obtain ⟨⟨k,hk⟩,hsp⟩ := ih (d := d.tick 1) hd (cluster+1) (by omega)
    have hus : ∀ top, (∀ x, cluster+1 ≤ x → x < top → cell g d.byte x ≠ 0) →
        ∀ x, cluster ≤ x → x < top → cell g d.byte x ≠ 0 := by
      intro top hla x hlo hhi
      by_cases heq : x = cluster
      · exact heq ▸ hzr
      · exact hla x (by omega) hhi
    refine ⟨⟨1+k,by rw [hk,tick_tick]⟩,?_⟩
    rcases hsp with ⟨hno,hrs⟩ | ⟨hlo,hhi,hfr,hrs⟩
    · exact .inl ⟨hno,hus _ fun x hx hx' => hrs x hx (by omega)⟩
    · exact .inr ⟨by omega,by omega,hfr,hus _ hrs⟩

lemma allocateCluster_cases (hg : g.Fits g.totalClusters) (hd : FatServed g d) :
    (∃ c k, allocateCluster g d = (some c,(writeFatEntry g (d.tick k) c fat32Eoc).2) ∧ g.Valid c ∧
      cell g d.byte c = 0 ∧ ∀ x, 2 ≤ x → x < c → cell g d.byte x ≠ 0) ∨
    ((allocateCluster g d).1 = none ∧ (∀ c, g.Valid c → cell g d.byte c ≠ 0) ∧
      ∃ k, (allocateCluster g d).2 = d.tick k) := by
  by_cases htl : 2 ≤ g.totalClusters
  · obtain ⟨⟨k,hk⟩,hsp⟩ := findFreeFrom_spec hg hd (g.totalClusters-2) 2 (by omega)
    rw [allocateCluster,findFreeCluster]
    rcases hsp with ⟨hno,hus⟩ | ⟨hlo,hhi,hfr,hus⟩
    · refine .inr ?_
      simp only [hno,if_true]
      exact ⟨trivial,fun c hc => hus c hc.1 (by have := hc.2; omega),k,hk⟩
    · have hvl : g.Valid (findFreeFrom g 2 (g.totalClusters-2) d).1 := ⟨hlo,by omega⟩
      obtain ⟨hok,-⟩ := writeFatEntry_copies hg (d := d.tick k) hd hvl.2 fat32Eoc
      refine .inl ⟨_,k,?_,hvl,hfr,hus⟩
      simp only [hk]
      rw [if_neg (by omega)]
      simp [hok]
  · refine .inr ?_
    have hzr : g.totalClusters-2 = 0 := by omega
    rw [allocateCluster,findFreeCluster,hzr]
    exact ⟨rfl,fun c hc => absurd hc.2 (by have := hc.1; omega),0,rfl⟩

lemma allocateCluster_spec (hg : g.Fits g.totalClusters) (hd : FatServed g d) :
    (∃ c, (allocateCluster g d).1 = some c ∧ g.Valid c ∧ cell g d.byte c = 0 ∧
      CellSet g c fat32Eoc d (allocateCluster g d).2) ∨
    ((allocateCluster g d).1 = none ∧ (∀ c, g.Valid c → cell g d.byte c ≠ 0) ∧
      ∃ k, (allocateCluster g d).2 = d.tick k) := by
  refine (allocateCluster_cases hg hd).imp_left fun ⟨c,k,heq,hvl,hfr,_⟩ => ?_
  obtain ⟨-,hset⟩ := writeFatEntry_spec hg (d := d.tick k) hd hvl.2 fat32Eoc
  rw [heq]
  exact ⟨c,rfl,hvl,hfr,hset.cell,((FatOnly.refl d).tick k).trans hset.only⟩

/-- `write_fat_entry` and `allocate_cluster` change one entry, the same in every copy of the FAT,
and the smallest free cluster is the one that is taken. -/
theorem fat_cells_exact (hcells : g.sectorsPerFat < 2^23) (hfats : 0 < g.numberOfFats)
    (hcopies : g.numberOfFats < 256) (hstart : g.reservedSectors < 2^16) (hd : FatServed g d) :
    (∀ c v, c < 128*g.sectorsPerFat → ∃ e, writeFatEntry g d c v = (true,e) ∧
      EntryStored g c (v % 2^28) d e ∧ FatOnly g d e ∧
      (nextCluster g e c).1 = v % 2^28) ∧
    ((allocateCluster g d).1 ≠ none ↔
      ∃ c, 2 ≤ c ∧ c < 128*g.sectorsPerFat ∧ cell g d.byte c = 0) ∧
    ∀ c e, allocateCluster g d = (some c,e) → 2 ≤ c ∧ c < 128*g.sectorsPerFat ∧
      cell g d.byte c = 0 ∧ (∀ x, 2 ≤ x → x < c → cell g d.byte x ≠ 0) ∧
      EntryStored g c fat32Eoc d e ∧ FatOnly g d e := by
  have htl : g.totalClusters = 128*g.sectorsPerFat := by
    rw [Geometry.totalClusters]
    omega
  have hmul : g.numberOfFats*g.sectorsPerFat ≤ 255*2^23 := Nat.mul_le_mul (by omega) hcells.le
  have hg : g.Fits g.totalClusters := ⟨hfats,by omega,by omega,by omega⟩
  rw [← htl]
  refine ⟨fun c v hc => ?_,?_⟩
  · obtain ⟨hok,hst,hon⟩ := writeFatEntry_copies hg hd hc v
    obtain ⟨-,hset⟩ := writeFatEntry_spec hg hd hc v
    refine ⟨_,Prod.ext hok rfl,hst,hon,?_⟩
    rw [nextCluster_ok hg (hon.served hd) hc,hset.cell c hc,if_pos rfl]
  rcases allocateCluster_cases hg hd with ⟨c,k,heq,hvl,hfr,hls⟩ | ⟨hno,hus,-⟩
  · obtain ⟨-,hst,hon⟩ := writeFatEntry_copies hg (d := d.tick k) hd hvl.2 fat32Eoc
    rw [heq]
    refine ⟨iff_of_true (by simp) ⟨c,hvl.1,hvl.2,hfr⟩,?_⟩
    rintro c e ⟨⟩
    exact ⟨hvl.1,hvl.2,hfr,hls,hst,((FatOnly.refl d).tick k).trans hon⟩
  · refine ⟨iff_of_false (not_not.2 hno) ?_,fun c e heq => ?_⟩
    · rintro ⟨c,hlo,hhi,hfr⟩
      exact hus c ⟨hlo,hhi⟩ hfr
    · rw [heq] at hno
      cases hno

/-- A volume with one sector for the FAT, all of it zero. -/
def blankVolume : Geometry × Device := (⟨1,1,1,1,2⟩,⟨fun _ => 0,0,fun _ _ => true,[]⟩)

/-- A disk with full clusters from the root cluster 2 on, whose FAT has `next` in the cell of the
root and ends the chain of cluster 3. -/
def rootDisk (next : UInt8) : Device where
  byte a :=
    if 1024 ≤ a then 0x41 else if a = 510 then 0x55 else if a = 511 then 0xAA
    else if a = 520 then next else if 524 ≤ a ∧ a < 527 then 0xFF else if a = 527 then 0x0F
    else if a = 0x0C ∨ a = 0x2C then 2
    else if a = 0x0D ∨ a = 0x0E ∨ a = 0x10 ∨ a = 0x24 then 1 else 0
  clock := 0
  ok _ _ := true
  clusterWrites := []

/-- Clusters 2 and 3 are in use, so 4 is the one that is taken. -/
theorem fat_cells_exact_chain :
    FatServed ⟨1,1,1,1,2⟩ (rootDisk 3) ∧ cell ⟨1,1,1,1,2⟩ (rootDisk 3).byte 2 = 3 ∧
      (∃ e, writeFatEntry ⟨1,1,1,1,2⟩ (rootDisk 3) 3 5 = (true,e) ∧
        (nextCluster ⟨1,1,1,1,2⟩ e 3).1 = 5) ∧
      ∃ e, allocateCluster ⟨1,1,1,1,2⟩ (rootDisk 3) = (some 4,e) ∧
        EntryStored ⟨1,1,1,1,2⟩ 4 fat32Eoc (rootDisk 3) e := by
  have hd : FatServed ⟨1,1,1,1,2⟩ (rootDisk 3) := fun _ _ _ => ⟨rfl,rfl⟩
  obtain ⟨hwr,-,hal⟩ := fat_cells_exact (by decide) (by decide) (by decide) (by decide) hd
  obtain ⟨e,he,-,-,hnx⟩ := hwr 3 5 (by decide)
  have hfo : (allocateCluster ⟨1,1,1,1,2⟩ (rootDisk 3)).1 = some 4 := by decide
  have heq : allocateCluster ⟨1,1,1,1,2⟩ (rootDisk 3) = (some 4,_) := Prod.ext hfo rfl
  exact ⟨hd,by decide,⟨e,he,hnx⟩,_,heq,(hal 4 _ heq).2.2.2.2.1⟩

end Table

end HarlinKernel.Fat32
