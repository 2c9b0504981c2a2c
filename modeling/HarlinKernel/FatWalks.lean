import HarlinKernel.FatDirectory

/-! The walks over the clusters of a directory on a disk with any contents. They follow the FAT
until a number ends the chain, an entry is the last one, or they have found what they look for;
nothing stops them on a chain that leads back into itself. -/
namespace HarlinKernel.Fat32

/-- The globals that all the other operations read. -/
structure Globals where
  fsPartitionLba : ℕ
  bytesPerSector : ℕ
  sectorsPerCluster : ℕ
  reservedSectors : ℕ
  numberOfFats : ℕ
  sectorsPerFat : ℕ
  rootCluster : ℕ
  firstDataSector : ℕ
  fatStartSector : ℕ
  deriving DecidableEq

/-- `Harlin_Mount`, with the globals as it leaves them, also where it fails. The argument `sector`
is what `read_sector` yields for the first sector of the partition. -/
def mountGlobals (g : Globals) (partitionLba : ℕ) (sector : Option Buffer) : ℤ × Globals :=
  let g := { g with fsPartitionLba := partitionLba }
  match sector with
  | none => (harlinFsError,g)
  | some buf =>
    if buf 510 ≠ 0x55 ∨ buf 511 ≠ 0xAA then (harlinFsError,g)
    else
      let g := { g with
        bytesPerSector := readLe16 buf 0x0B
        sectorsPerCluster := (buf 0x0D).toNat
        reservedSectors := readLe16 buf 0x0E
        numberOfFats := (buf 0x10).toNat
        sectorsPerFat := readLe32 buf 0x24
        rootCluster := readLe32 buf 0x2C }
      if g.bytesPerSector ≠ 512 ∨ g.sectorsPerCluster = 0 ∨ 8 < g.sectorsPerCluster then
        (harlinFsError,g)
      else if 4096 < g.sectorsPerCluster*g.bytesPerSector then (harlinFsError,g)
      else
        (harlinFsOk,{ g with
          fatStartSector := g.reservedSectors
          firstDataSector := (g.reservedSectors+g.numberOfFats*g.sectorsPerFat) % 2^32 })

def Globals.geometry (g : Globals) : Geometry where
  sectorsPerCluster := g.sectorsPerCluster
  reservedSectors := g.reservedSectors
  numberOfFats := g.numberOfFats
  sectorsPerFat := g.sectorsPerFat
  rootCluster := g.rootCluster

/-- The geometry that `Harlin_Mount` finds on a disk, if it succeeds. -/
def harlinMount (d : Device) : Option Geometry × Device :=
  let r := readSector d 0
  let m := mountGlobals ⟨0,0,0,0,0,0,0,0,0⟩ 0 r.1
  (if m.1 = harlinFsOk then some m.2.geometry else none,r.2)

/-- The loop of `is_dir_empty` over `n` entries of a cluster from number `i` on: the result, or
the number of entries in use so far. -/
def scanUsed (buf : Buffer) (i count : ℕ) : ℕ → Bool ⊕ ℕ
  | 0 => .inr count
  | n+1 =>
    let entry := entryAt buf (i*32)
    if entry 0 = 0 then .inl (decide (count ≤ 2))
    else if entry 0 ≠ fat32Deleted ∧ entry 11 ≠ fat32Lfn then
      if 2 < count+1 then .inl false else scanUsed buf (i+1) (count+1) n
    else scanUsed buf (i+1) count n

def isDirEmpty (g : Geometry) : ℕ → Device → ℕ → ℕ → Option (Bool × Device)
  | 0, _, _, _ => none
  | fuel+1, d, cluster, count =>
    if cluster < fat32Eoc then
      let r := readCluster g d cluster
      match r.1 with
      | none => some (false,r.2)
      | some buf =>
        match scanUsed buf 0 count (g.clusterSize/32) with
        | .inl empty => some (empty,r.2)
        | .inr count =>
          let next := nextCluster g r.2 cluster
          isDirEmpty g fuel next.2 next.1 count
    else some (decide (count ≤ 2),d)

section Walks

variable {g : Geometry} {d : Device} {b buf : Buffer} {c i n fuel count : ℕ} {name : List UInt8}

/-- From a cluster on, the FAT leads to a number that ends the chain or to a cluster in which an
entry is marked as the last one. -/
inductive Ends (g : Geometry) (b : Buffer) : ℕ → Prop
  | chain {c : ℕ} (h : fat32Eoc ≤ c) : Ends g b c
  | mark {c i : ℕ} (hi : i < g.clusterSize/32) (h : clusterBytes g b c (i*32) = 0) : Ends g b c
  | next {c : ℕ} (h : Ends g b (cell g b c)) : Ends g b c

/-- The three walks over a directory return, whatever name is looked for. -/
structure WalksReturn (g : Geometry) (d : Device) (c : ℕ) : Prop where
  findEntry : ∀ name, ∃ fuel, findEntryInDir g name fuel d c ≠ none
  findSlot : ∃ fuel, findDirectorySlotIn g fuel d c ≠ none
  isEmpty : ∃ fuel, isDirEmpty g fuel d c 0 ≠ none

/-- None of `n` entries from number `i` on is marked as the last one. -/
def Unmarked (buf : Buffer) (i n : ℕ) : Prop := ∀ j, i ≤ j → j < i+n → buf (j*32) ≠ 0

lemma Unmarked.cons (h : Unmarked buf (i+1) n) (hi : buf (i*32) ≠ 0) : Unmarked buf i (n+1) := by
  intro j hlo hhi
  by_cases hj : j = i
  · exact hj ▸ hi
  · exact h j (by omega) (by omega)

lemma Unmarked.tail (h : Unmarked buf i (n+1)) : Unmarked buf (i+1) n :=
  fun j hlo hhi => h j (by omega) (by omega)

lemma scanEntries_more (h : scanEntries name buf c i n = .more) : Unmarked buf i n := by
  induction n generalizing i with
  | zero => exact fun j hlo hhi => by omega
  | succ n ih =>
    rw [scanEntries] at h
    split_ifs at h with hzr
    all_goals exact (ih h).cons hzr

lemma scanSlots_none (h : scanSlots buf i n = none) : Unmarked buf i n := by
  induction n generalizing i with
  | zero => exact fun j hlo hhi => by omega
  | succ n ih =>
    rw [scanSlots] at h
    split_ifs at h with hfr
    exact (ih h).cons fun hzr => hfr (.inl hzr)

lemma scanUsed_inr {k : ℕ} (h : scanUsed buf i count n = .inr k) : Unmarked buf i n := by
  induction n generalizing i count with
  | zero => exact fun j hlo hhi => by omega
  | succ n ih =>
    rw [scanUsed] at h
    split_ifs at h with hzr
    all_goals exact (ih h).cons hzr

/-- A name that is longer than those of entries. -/
def longName : List UInt8 := List.replicate 13 0x41

lemma filenameMatch_longName (entry : Buffer) : filenameMatch longName entry = false := by
  have hbs := (((List.range 8).map entry).takeWhile_sublist (· ≠ space)).length_le
  have hln : (shortName entry).length ≤ 12 := by
    refine (List.takeWhile_sublist _).length_le.trans ?_
    rw [List.length_map,List.length_range] at hbs
    split_ifs <;> simp only [List.length_append,List.length_cons,List.length_nil] <;> omega
  have hne : longName ≠ shortName entry := by
    intro heq
    rw [← heq] at hln
    exact absurd hln (by decide)
  rw [filenameMatch]
  split_ifs
  all_goals simp [hne]

lemma scanEntries_longName (h : Unmarked buf i n) : scanEntries longName buf c i n = .more := by
  induction n generalizing i with
  | zero => rfl
  | succ n ih =>
    have hi : entryAt buf (i*32) 0 ≠ 0 := h i le_rfl (by omega)
    simp [scanEntries,hi,ih h.tail,filenameMatch_longName]

lemma findEntryInDir_none (hd : d.Reliable) : findEntryInDir g name (fuel+1) d c = none ↔
    c < fat32Eoc ∧ scanEntries name (clusterBytes g d.byte c) c 0 (g.clusterSize/32) = .more ∧
      findEntryInDir g name fuel (d.tick (g.sectorsPerCluster+1)) (cell g d.byte c) = none := by
  rw [findEntryInDir,readCluster_ok hd]
  split_ifs with hc
  · simp only [nextCluster_cell (hd.tick _) hc,tick_byte,tick_tick]
    cases scanEntries name (clusterBytes g d.byte c) c 0 (g.clusterSize/32) <;> simp [hc]
  · simp [hc]

lemma findDirectorySlotIn_none (hd : d.Reliable) : findDirectorySlotIn g (fuel+1) d c = none ↔
    c < fat32Eoc ∧ scanSlots (clusterBytes g d.byte c) 0 (g.clusterSize/32) = none ∧
      findDirectorySlotIn g fuel (d.tick (g.sectorsPerCluster+1)) (cell g d.byte c) = none := by
  rw [findDirectorySlotIn,readCluster_ok hd]
  split_ifs with hc
  · simp only [nextCluster_cell (hd.tick _) hc,tick_byte,tick_tick]
    cases scanSlots (clusterBytes g d.byte c) 0 (g.clusterSize/32) <;> simp [hc]
  · simp [hc]

lemma isDirEmpty_none (hd : d.Reliable) : isDirEmpty g (fuel+1) d c count = none ↔
    c < fat32Eoc ∧ ∃ k, scanUsed (clusterBytes g d.byte c) 0 count (g.clusterSize/32) = .inr k ∧
      isDirEmpty g fuel (d.tick (g.sectorsPerCluster+1)) (cell g d.byte c) k = none := by
  rw [isDirEmpty,readCluster_ok hd]
  split_ifs with hc
  · simp only [nextCluster_cell (hd.tick _) hc,tick_byte,tick_tick]
    cases scanUsed (clusterBytes g d.byte c) 0 count (g.clusterSize/32) <;> simp [hc]
  · simp [hc]

lemma not_ends {P : Device → ℕ → Prop} (h : ∀ d c, d.Reliable → P d c → c < fat32Eoc ∧
    Unmarked (clusterBytes g d.byte c) 0 (g.clusterSize/32) ∧ P (d.tick (g.sectorsPerCluster+1))
    (cell g d.byte c)) (hd : d.Reliable) (hc : P d c) : ¬Ends g d.byte c := by
  intro hen
  obtain ⟨b,hb⟩ : ∃ b, b = d.byte := ⟨_,rfl⟩
  rw [← hb] at hen
  induction hen generalizing d with
  | chain hend => exact absurd (h _ _ hd hc).1 (not_lt.2 hend)
  | mark hi hmr =>
    subst hb
    exact (h _ _ hd hc).2.1 _ (Nat.zero_le _) (by omega) hmr
  | next _ ih =>
    subst hb
    exact ih (hd.tick _) (h _ _ hd hc).2.2 rfl

lemma findEntryInDir_stuck (hd : d.Reliable) (h : ¬Ends g d.byte c) (fuel : ℕ) :
    findEntryInDir g longName fuel d c = none := by
  induction fuel generalizing d c with
  | zero => rfl
  | succ fuel ih =>
    refine (findEntryInDir_none hd).2 ⟨?_,scanEntries_longName fun j _ hj hmr => ?_,?_⟩
    · exact not_le.1 fun hend => h (.chain hend)
    · exact h (.mark (by omega) hmr)
    · exact ih (hd.tick _) fun hnx => h (.next hnx)

/-- The walks return for every name exactly if the chain of the directory ends or an entry of it
is marked as the last one. -/
theorem directory_walks_return_iff (hd : d.Reliable) : WalksReturn g d c ↔ Ends g d.byte c := by
  constructor
  · intro hrt
    by_contra hen
    obtain ⟨fuel,hfl⟩ := hrt.findEntry longName
    exact hfl (findEntryInDir_stuck hd hen fuel)
  · intro hen
    constructor
    · intro name
      by_contra! hst
      refine not_ends (P := fun d c => ∀ fuel, findEntryInDir g name fuel d c = none) ?_ hd hst hen
      intro d c hd hst
      have hrn := fun fuel => (findEntryInDir_none hd).1 (hst (fuel+1))
      exact ⟨(hrn 0).1,scanEntries_more (hrn 0).2.1,fun fuel => (hrn fuel).2.2⟩
    · by_contra! hst
      refine not_ends (P := fun d c => ∀ fuel, findDirectorySlotIn g fuel d c = none) ?_ hd hst hen
      intro d c hd hst
      have hrn := fun fuel => (findDirectorySlotIn_none hd).1 (hst (fuel+1))
      exact ⟨(hrn 0).1,scanSlots_none (hrn 0).2.1,fun fuel => (hrn fuel).2.2⟩
    · by_contra! hst
      refine not_ends (P := fun d c => ∃ count, ∀ fuel, isDirEmpty g fuel d c count = none) ?_ hd
        ⟨0,hst⟩ hen
      rintro d c hd ⟨count,hst⟩
      have hrn := fun fuel => (isDirEmpty_none hd).1 (hst (fuel+1))
      obtain ⟨hc,k,hsc,-⟩ := hrn 0
      refine ⟨hc,scanUsed_inr hsc,k,fun fuel => ?_⟩
      obtain ⟨-,k',hsc',hno⟩ := hrn fuel
      rw [hsc] at hsc'
      cases hsc'
      exact hno

theorem directory_walks_return_two_clusters :
    (harlinMount (rootDisk 3)).1 = some ⟨1,1,1,1,2⟩ ∧ (rootDisk 3).Reliable ∧
      cell ⟨1,1,1,1,2⟩ (rootDisk 3).byte 2 = 3 ∧ WalksReturn ⟨1,1,1,1,2⟩ (rootDisk 3) 2 := by
  have hd : (rootDisk 3).Reliable := fun _ _ => rfl
  have hnx : cell ⟨1,1,1,1,2⟩ (rootDisk 3).byte 2 = 3 := by decide
  have hls : fat32Eoc ≤ cell ⟨1,1,1,1,2⟩ (rootDisk 3).byte 3 := by decide
  exact ⟨rfl,hd,hnx,(directory_walks_return_iff hd).2 (.next (hnx ▸ .next (.chain hls)))⟩

/-- A disk whose only directory cluster is full and leads to itself. -/
def circularDisk : Device := rootDisk 2

theorem directory_walk_never_returns :
    (harlinMount circularDisk).1 = some ⟨1,1,1,1,2⟩ ∧ circularDisk.Reliable ∧
      ∀ fuel, findEntryInDir ⟨1,1,1,1,2⟩ longName fuel circularDisk 2 = none := by
  have hd : circularDisk.Reliable := fun _ _ => rfl
  refine ⟨rfl,hd,findEntryInDir_stuck hd ?_⟩
  refine not_ends (P := fun d c => c = 2 ∧ d.byte = circularDisk.byte) ?_ hd ⟨rfl,rfl⟩
  rintro d c - ⟨rfl,hb⟩
  rw [hb]
  refine ⟨by decide,fun j _ hj => ?_,by decide,hb⟩
  have hj' : j < 16 := by simpa [Geometry.clusterSize] using hj
  interval_cases j <;> decide

end Walks

/-- The globals of a mounted volume. -/
def Geometry.globals (g : Geometry) (partitionLba : ℕ) : Globals where
  fsPartitionLba := partitionLba
  bytesPerSector := 512
  sectorsPerCluster := g.sectorsPerCluster
  reservedSectors := g.reservedSectors
  numberOfFats := g.numberOfFats
  sectorsPerFat := g.sectorsPerFat
  rootCluster := g.rootCluster
  firstDataSector := g.firstDataSector
  fatStartSector := g.fatStartSector

lemma mountGlobals_eq (g₀ : Globals) (partitionLba : ℕ) {d : Device} {g : Geometry}
    (h : (harlinMount d).1 = some g) :
    mountGlobals g₀ partitionLba (readSector d 0).1 = (harlinFsOk,g.globals partitionLba) ∧
      0 < g.sectorsPerCluster ∧ g.sectorsPerCluster ≤ 8 := by
  rw [harlinMount] at h
  have hbad : harlinFsError ≠ harlinFsOk := by decide
  cases hrd : (readSector d 0).1 with
  | none => simp [hrd,mountGlobals,hbad] at h
  | some buf =>
    simp only [hrd,mountGlobals] at h ⊢
    by_cases hsg : buf 510 ≠ 0x55 ∨ buf 511 ≠ 0xAA
    · simp [hsg,hbad] at h
    simp only [if_neg hsg] at h ⊢
    split_ifs at h ⊢ with hsz hbig
    cases h
    refine ⟨?_,by dsimp only [Globals.geometry]; omega,by dsimp only [Globals.geometry]; omega⟩
    rw [Geometry.globals]
    simp only [Prod.mk.injEq,true_and,Globals.mk.injEq]
    exact ⟨by omega,rfl,rfl,rfl,rfl,rfl,rfl,rfl⟩

/-- A failed `Harlin_Mount` leaves the globals of the mounted volume as they were, and no sector or
cluster size of 0, if it was for the partition that is mounted and found no signature. -/
theorem failed_mount_harmless_iff (d : Device) (g : Geometry) (h : (harlinMount d).1 = some g)
    (mounted partitionLba : ℕ) (sector : Option Buffer)
    (hfail : (mountGlobals (g.globals mounted) partitionLba sector).1 = harlinFsError) :
    (mountGlobals (g.globals mounted) partitionLba sector).2 = g.globals mounted ∧
      (mountGlobals (g.globals mounted) partitionLba sector).2.bytesPerSector ≠ 0 ∧
      (mountGlobals (g.globals mounted) partitionLba sector).2.sectorsPerCluster ≠ 0 ↔
    partitionLba = mounted ∧ ∀ buf, sector = some buf → buf 510 ≠ 0x55 ∨ buf 511 ≠ 0xAA := by
  obtain ⟨-,hpos,hle⟩ := mountGlobals_eq (g.globals mounted) mounted h
  cases sector with
  | none => simp [mountGlobals,Geometry.globals,hpos.ne']
  | some buf =>
    by_cases hsg : buf 510 ≠ 0x55 ∨ buf 511 ≠ 0xAA
    · simp [mountGlobals,Geometry.globals,hsg,hpos.ne']
    refine iff_of_false (fun hsm => ?_) fun hcn => hsg (hcn.2 buf rfl)
    -- the numbers have been stored before they are checked
    have hby := congrArg Globals.bytesPerSector hsm.1
    have hcl := congrArg Globals.sectorsPerCluster hsm.1
    simp only [mountGlobals,if_neg hsg,Geometry.globals] at hby hcl hfail
    split_ifs at hby hcl hfail with hbad hbig
    · dsimp only at hby hcl
      omega
    · dsimp only at hby hcl
      rw [hby] at hbig
      omega
    · cases hfail

theorem failed_mount_harmless_iff_unsigned :
    (mountGlobals (Geometry.globals ⟨1,1,1,1,2⟩ 63) 63 (some fun _ => 0)).1 = harlinFsError ∧
      (mountGlobals (Geometry.globals ⟨1,1,1,1,2⟩ 63) 63 (some fun _ => 0)).2 =
        Geometry.globals ⟨1,1,1,1,2⟩ 63 := by
  refine ⟨rfl,((failed_mount_harmless_iff circularDisk _ rfl 63 63 _ rfl).mpr ⟨rfl,?_⟩).1⟩
  rintro buf ⟨⟩
  exact .inl (by decide)

/-- A sector with a signature and nothing else is refused, but its sector size of 0 stays. -/
theorem failed_mount_zero_sector_size :
    (harlinMount circularDisk).1 = some ⟨1,1,1,1,2⟩ ∧
      (mountGlobals (Geometry.globals ⟨1,1,1,1,2⟩ 63) 63
        (some fun a => if a = 510 then 0x55 else if a = 511 then 0xAA else 0)).1 = harlinFsError ∧
      (mountGlobals (Geometry.globals ⟨1,1,1,1,2⟩ 63) 63
          (some fun a => if a = 510 then 0x55 else if a = 511 then 0xAA else 0)).2.bytesPerSector =
        0 :=
  ⟨rfl,by decide,by decide⟩

end HarlinKernel.Fat32
