import HarlinKernel.TransitionSystem

/-! The FAT32 file system of `fs/fat32.c` on a disk of 512-byte sectors. Sectors are counted from
the start of the partition. Each sector command to the disk may fail; the global buffers are
values here, and the lock is left out. A loop that follows a chain of clusters takes a bound on
its rounds and has no result when the bound does not suffice. -/
namespace HarlinKernel.Fat32

def fat32Eoc : ℕ := 0x0FFFFFF8
def fat32Deleted : UInt8 := 0xE5
def fat32Lfn : UInt8 := 0x0F
def harlinFsOk : ℤ := 0
def harlinFsError : ℤ := -1
def harlinFsEof : ℤ := -2

abbrev Buffer := ℕ → UInt8

/-- The cast of a 32-bit number to `int`. -/
def toInt (x : ℕ) : ℤ := if x % 2^32 < 2^31 then (x % 2^32 : ℕ) else (x % 2^32 : ℕ)-2^32

inductive Command
  | read (sector : ℕ)
  | write (sector : ℕ)

/-- The bytes of the partition, the number of commands so far, whether the disk carries out the
command of that number, and the sectors that `write_cluster` was asked to write. -/
structure Device where
  byte : Buffer
  clock : ℕ
  ok : ℕ → Command → Bool
  clusterWrites : List ℕ

/-- The copy of `n` bytes into a buffer. -/
def copyBytes (dst : Buffer) (offset : ℕ) (src : Buffer) (n : ℕ) : Buffer := fun i =>
  if offset ≤ i ∧ i < offset+n then src (i-offset) else dst i

def Device.tick (d : Device) (n : ℕ) : Device := { d with clock := d.clock+n }

/-- The loop of `ata_read_sectors`. -/
def readLoop (d : Device) (sector : ℕ) : ℕ → Bool × Device
  | 0 => (true,d)
  | n+1 =>
    if d.ok d.clock (.read sector) then readLoop (d.tick 1) (sector+1) n else (false,d.tick 1)

def ataReadSectors (d : Device) (sector count : ℕ) : Option Buffer × Device :=
  let r := readLoop d sector count
  (if r.1 then some fun i => d.byte (512*sector+i) else none,r.2)

/-- The loop of `ata_write_sectors`; the sectors before one that fails have been written. -/
def writeLoop (buf : Buffer) (d : Device) (sector : ℕ) : ℕ → Bool × Device
  | 0 => (true,d)
  | n+1 =>
    if d.ok d.clock (.write sector) then
      let d := { d with byte := copyBytes d.byte (512*sector) buf 512 }
      writeLoop (fun i => buf (i+512)) (d.tick 1) (sector+1) n
    else (false,d.tick 1)

def ataWriteSectors (d : Device) (sector count : ℕ) (buf : Buffer) : Bool × Device :=
  writeLoop buf d sector count

def readSector (d : Device) (sector : ℕ) : Option Buffer × Device := ataReadSectors d sector 1

def writeSector (d : Device) (sector : ℕ) (buf : Buffer) : Bool × Device :=
  ataWriteSectors d sector 1 buf

def readLe16 (b : Buffer) (i : ℕ) : ℕ := (b i).toNat+256*(b (i+1)).toNat

def readLe32 (b : Buffer) (i : ℕ) : ℕ :=
  (b i).toNat+2^8*(b (i+1)).toNat+2^16*(b (i+2)).toNat+2^24*(b (i+3)).toNat

def setByte (b : Buffer) (i val : ℕ) : Buffer := Function.update b i (UInt8.ofNat val)

def writeLe16 (b : Buffer) (i val : ℕ) : Buffer :=
  setByte (setByte b i val) (i+1) (val/2^8)

def writeLe32 (b : Buffer) (i val : ℕ) : Buffer :=
  setByte (setByte (setByte (setByte b i val) (i+1) (val/2^8)) (i+2) (val/2^16)) (i+3) (val/2^24)

/-- What `Harlin_Mount` reads from the first sector; a sector has 512 bytes. -/
structure Geometry where
  sectorsPerCluster : ℕ
  reservedSectors : ℕ
  numberOfFats : ℕ
  sectorsPerFat : ℕ
  rootCluster : ℕ

namespace Geometry

def fatStartSector (g : Geometry) : ℕ := g.reservedSectors

def firstDataSector (g : Geometry) : ℕ := (g.reservedSectors+g.numberOfFats*g.sectorsPerFat) % 2^32

def clusterSize (g : Geometry) : ℕ := 512*g.sectorsPerCluster

/-- The `total_clusters` of `find_free_cluster`. -/
def totalClusters (g : Geometry) : ℕ := g.sectorsPerFat*512 % 2^32/4

def clusterToSector (g : Geometry) (cluster : ℕ) : ℕ :=
  (g.firstDataSector+(cluster+(2^32-2)) % 2^32*g.sectorsPerCluster) % 2^32

end Geometry

variable (g : Geometry)

def readCluster (d : Device) (cluster : ℕ) : Option Buffer × Device :=
  ataReadSectors d (g.clusterToSector cluster) g.sectorsPerCluster

/-- The attempts of `write_cluster`, each of which reads back what it has written. -/
def writeAttempts (sector : ℕ) (buf : Buffer) : ℕ → Device → Bool × Device
  | 0, d => (false,d)
  | retry+1, d =>
    let w := ataWriteSectors d sector g.sectorsPerCluster buf
    if w.1 then
      let r := ataReadSectors w.2 sector g.sectorsPerCluster
      match r.1 with
      | none => writeAttempts sector buf retry r.2
      | some verify =>
        if ∀ i < g.clusterSize, buf i = verify i then (true,r.2)
        else writeAttempts sector buf retry r.2
    else writeAttempts sector buf retry w.2

def writeCluster (d : Device) (cluster : ℕ) (buf : Buffer) : Bool × Device :=
  let sector := g.clusterToSector cluster
  let sectors := (List.range g.sectorsPerCluster).map fun i => sector+i
  writeAttempts g sector buf 3 { d with clusterWrites := d.clusterWrites ++ sectors }

/-- The sector of a FAT entry within a copy of the FAT, and its offset there. -/
def fatSector (cluster : ℕ) : ℕ := cluster*4 % 2^32/512
def fatOffset (cluster : ℕ) : ℕ := cluster*4 % 2^32 % 512

def nextCluster (d : Device) (cluster : ℕ) : ℕ × Device :=
  let r := readSector d (g.fatStartSector+fatSector cluster)
  match r.1 with
  | none => (fat32Eoc,r.2)
  | some buf => (readLe32 buf (fatOffset cluster) % 2^28,r.2)

/-- The loop of `write_fat_entry` over `n` copies of the FAT from number `fat` on. -/
def writeFatCopies (cluster value fat : ℕ) : ℕ → Device → Bool × Device
  | 0, d => (true,d)
  | n+1, d =>
    let lba := g.fatStartSector+fat*g.sectorsPerFat+fatSector cluster
    let r := readSector d lba
    match r.1 with
    | none => (false,r.2)
    | some buf =>
      let w := writeSector r.2 lba (writeLe32 buf (fatOffset cluster) (value % 2^28))
      if w.1 then writeFatCopies cluster value (fat+1) n w.2 else (false,w.2)

def writeFatEntry (d : Device) (cluster value : ℕ) : Bool × Device :=
  writeFatCopies g cluster value 0 g.numberOfFats d

/-- The loop of `find_free_cluster` over `n` clusters from a number on; 0 if there is none. -/
def findFreeFrom (cluster : ℕ) : ℕ → Device → ℕ × Device
  | 0, d => (0,d)
  | n+1, d =>
    let r := readSector d (g.fatStartSector+fatSector cluster)
    match r.1 with
    | none => (0,r.2)
    | some buf =>
      if readLe32 buf (fatOffset cluster) % 2^28 = 0 then (cluster,r.2)
      else findFreeFrom (cluster+1) n r.2

def findFreeCluster (d : Device) : ℕ × Device := findFreeFrom g 2 (g.totalClusters-2) d

def allocateCluster (d : Device) : Option ℕ × Device :=
  let r := findFreeCluster g d
  if r.1 = 0 then (none,r.2)
  else
    let w := writeFatEntry g r.2 r.1 fat32Eoc
    (if w.1 then some r.1 else none,w.2)

def linkCluster (d : Device) (prev next : ℕ) : Bool × Device := writeFatEntry g d prev next

/-- The loop that frees a chain in `Harlin_DeleteFile` and `Harlin_Rmdir`. -/
def freeChain : ℕ → Device → ℕ → Option Device
  | 0, _, _ => none
  | fuel+1, d, cluster =>
    if 2 ≤ cluster ∧ cluster < fat32Eoc then
      let r := nextCluster g d cluster
      freeChain fuel (writeFatEntry g r.2 cluster 0).2 r.1
    else some d

def dot : UInt8 := 0x2E
def space : UInt8 := 0x20
def slash : UInt8 := 0x2F

/-- The name that `filename_match` builds from an entry. -/
def shortName (entry : Buffer) : List UInt8 :=
  let base := ((List.range 8).map entry).takeWhile (· ≠ space)
  let ext :=
    if entry 8 ≠ space then
      [dot,entry 8] ++ (if entry 9 ≠ space then [entry 9] else []) ++
        (if entry 10 ≠ space then [entry 10] else [])
    else []
  (base ++ ext).takeWhile (· ≠ 0)

def filenameMatch (name : List UInt8) (entry : Buffer) : Bool :=
  if entry 0 = fat32Deleted ∨ entry 0 = 0 then false
  else if entry 11 &&& fat32Lfn = fat32Lfn then false
  else if entry 11 &&& 0x08 ≠ 0 then false
  else name = shortName entry

def upper (c : UInt8) : UInt8 := if 0x61 ≤ c ∧ c ≤ 0x7A then c-0x61+0x41 else c

/-- `to_upper`: at most `max` characters, padded with spaces. -/
def toUpper (src : List UInt8) (max : ℕ) : List UInt8 :=
  let chars := (src.take max).map upper
  chars ++ List.replicate (max-chars.length) space

def nameChar (c : UInt8) : Bool :=
  (0x41 ≤ c ∧ c ≤ 0x5A) ∨ (0x61 ≤ c ∧ c ≤ 0x7A) ∨ (0x30 ≤ c ∧ c ≤ 0x39) ∨
    c = 0x7E ∨ c = 0x5F ∨ c = 0x2D ∨ c = dot

/-- The index of the last dot. -/
def lastDot (name : List UInt8) : Option ℕ :=
  ((List.range name.length).filter fun i => name.getD i 0 = dot).getLast?

/-- `make_short_name`: the eleven bytes of the name in an entry. -/
def makeShortName (name : List UInt8) : Option (List UInt8) :=
  if name.all nameChar then
    match lastDot name with
    | some i =>
      if 8 < i then none else some (toUpper name 8 ++ toUpper (name.drop (i+1)) 3)
    | none => if 8 < name.length then none else some (toUpper name 8 ++ toUpper [] 3)
  else none

/-- What `find_entry_in_dir` stores about the entry that it finds. -/
structure Found where
  cluster : ℕ
  offset : ℕ
  fileCluster : ℕ
  fileSize : ℕ
  attr : UInt8

/-- The entry at an offset of a buffer. -/
def entryAt (buf : Buffer) (offset : ℕ) : Buffer := fun i => buf (offset+i)

def entryCluster (entry : Buffer) : ℕ := readLe16 entry 0x14*2^16+readLe16 entry 0x1A

inductive Scan
  | found (f : Found)
  | ended
  | more

/-- The loop of `find_entry_in_dir` over `n` entries of a cluster from number `i` on. Entries of
long names are skipped before the code that would read them. -/
def scanEntries (name : List UInt8) (buf : Buffer) (cluster i : ℕ) : ℕ → Scan
  | 0 => .more
  | n+1 =>
    let entry := entryAt buf (i*32)
    if entry 0 = 0 then .ended
    else if entry 11 = fat32Lfn then scanEntries name buf cluster (i+1) n
    else if entry 0 = fat32Deleted then scanEntries name buf cluster (i+1) n
    else if filenameMatch name entry then
      .found ⟨cluster,i*32,entryCluster entry,readLe32 entry 0x1C,entry 11⟩
    else scanEntries name buf cluster (i+1) n

def findEntryInDir (name : List UInt8) : ℕ → Device → ℕ → Option (Option Found × Device)
  | 0, _, _ => none
  | fuel+1, d, cluster =>
    if cluster < fat32Eoc then
      let r := readCluster g d cluster
      match r.1 with
      | none => some (none,r.2)
      | some buf =>
        match scanEntries name buf cluster 0 (g.clusterSize/32) with
        | .found f => some (some f,r.2)
        | .ended => some (none,r.2)
        | .more =>
          let next := nextCluster g r.2 cluster
          findEntryInDir name fuel next.2 next.1
    else some (none,d)

/-- The loop of `find_directory_slot_in` over `n` entries of a cluster from number `i` on. -/
def scanSlots (buf : Buffer) (i : ℕ) : ℕ → Option ℕ
  | 0 => none
  | n+1 =>
    if buf (i*32) = 0 ∨ buf (i*32) = fat32Deleted then some (i*32) else scanSlots buf (i+1) n

/-- The cluster and the offset of a free slot. -/
def findDirectorySlotIn : ℕ → Device → ℕ → Option (Option (ℕ × ℕ) × Device)
  | 0, _, _ => none
  | fuel+1, d, cluster =>
    if cluster < fat32Eoc then
      let r := readCluster g d cluster
      match r.1 with
      | none => some (none,r.2)
      | some buf =>
        match scanSlots buf 0 (g.clusterSize/32) with
        | some offset => some (some (cluster,offset),r.2)
        | none =>
          let next := nextCluster g r.2 cluster
          findDirectorySlotIn fuel next.2 next.1
    else some (none,d)

/-- `struct Harlin_File`; the data of a file in the initial ramdisk is in `ramfs`. -/
structure File where
  startCluster : ℕ
  currentCluster : ℕ
  position : ℕ
  size : ℕ
  dirCluster : ℕ
  dirOffset : ℕ
  damaged : Bool
  ramfs : Option Buffer

/-- The loop of `Harlin_Read`: what was stored, how much was not, and the handle. -/
def readFileLoop (len : ℕ) : ℕ → Device → File → Buffer → ℕ → ℕ → Buffer × ℕ × Device × File
  | 0, d, f, dst, _, remaining => (dst,remaining,d,f)
  | fuel+1, d, f, dst, done, remaining =>
    if 0 < remaining ∧ f.currentCluster < fat32Eoc then
      let clusterPos := f.position % g.clusterSize
      let chunk := min (g.clusterSize-clusterPos) remaining
      let r := readCluster g d f.currentCluster
      match r.1 with
      | none => (dst,len,r.2,f)
      | some buf =>
        let dst := copyBytes dst done (fun i => buf (clusterPos+i)) chunk
        let f := { f with position := (f.position+chunk) % 2^32 }
        if f.position % g.clusterSize = 0 then
          let next := nextCluster g r.2 f.currentCluster
          readFileLoop len fuel next.2 { f with currentCluster := next.1 } dst (done+chunk)
            (remaining-chunk)
        else readFileLoop len fuel r.2 f dst (done+chunk) (remaining-chunk)
    else (dst,remaining,d,f)

def harlinRead (d : Device) (f : File) (dst : Buffer) (len : ℕ) : ℤ × Buffer × Device × File :=
  if f.size ≤ f.position then (harlinFsEof,dst,d,f)
  else
    let remaining := if f.size < (f.position+len) % 2^32 then f.size-f.position else len
    match f.ramfs with
    | some data =>
      (toInt remaining,copyBytes dst 0 (fun i => data (f.position+i)) remaining,d,
        { f with position := (f.position+remaining) % 2^32 })
    | none =>
      let r := readFileLoop g len remaining d f dst 0 remaining
      (toInt (len-r.2.1),r.1,r.2.2.1,r.2.2.2)

def harlinClose (f : File) : File :=
  { f with
    startCluster := 0
    currentCluster := 0
    position := 0
    size := 0
    dirCluster := 0
    dirOffset := 0 }

def maxWalk : ℕ := 0x10000000

/-- The walk of `extend_file_clusters` to the end of the chain: the last cluster and the number of
clusters passed, `none` where the function gives up. -/
def walkToEnd : ℕ → Device → ℕ → ℕ → Option (ℕ × ℕ) × Device
  | 0, d, _, _ => (none,d)
  | walk+1, d, cluster, count =>
    let next := nextCluster g d cluster
    if next.1 = cluster then (none,next.2)
    else if fat32Eoc ≤ next.1 then (some (cluster,count+1),next.2)
    else walkToEnd walk next.2 next.1 (count+1)

/-- The loop of `extend_file_clusters` that appends `n` clusters. -/
def appendClusters : ℕ → Device → ℕ → Bool × Device
  | 0, d, _ => (true,d)
  | n+1, d, last =>
    let a := allocateCluster g d
    match a.1 with
    | none => (false,a.2)
    | some new =>
      let w := linkCluster g a.2 last new
      if w.1 then appendClusters n w.2 new else (false,w.2)

/-- The part of `extend_file_clusters` after the first cluster. -/
def extendFrom (d : Device) (cluster count needed : ℕ) : Bool × Device :=
  let r := walkToEnd g maxWalk d cluster count
  match r.1 with
  | none => (false,r.2)
  | some (last,count) => appendClusters g (needed-count) r.2 last

def extendFileClusters (d : Device) (f : File) (needed : ℕ) : Bool × Device × File :=
  if f.startCluster = 0 ∨ fat32Eoc ≤ f.startCluster then
    let a := allocateCluster g d
    match a.1 with
    | none => (false,a.2,f)
    | some new =>
      let f := { f with startCluster := new,currentCluster := new }
      if needed ≤ 1 then (true,a.2,f)
      else
        let r := extendFrom g a.2 new 1 needed
        (r.1,r.2,f)
  else
    let r := extendFrom g d f.startCluster 0 needed
    (r.1,r.2,f)

def updateDirectorySize (d : Device) (f : File) : Bool × Device :=
  if f.dirCluster = 0 then (true,d)
  else
    let r := readCluster g d f.dirCluster
    match r.1 with
    | none => (false,r.2)
    | some buf => writeCluster g r.2 f.dirCluster (writeLe32 buf (f.dirOffset+0x1C) f.size)

/-- The first loop of `truncate_file_at`: the last cluster that stays and the one after it. -/
def truncateWalk : ℕ → Device → ℕ → ℕ → (ℕ × ℕ) × Device
  | 0, d, prev, cluster => ((prev,cluster),d)
  | n+1, d, prev, cluster =>
    if cluster < fat32Eoc then
      let next := nextCluster g d cluster
      truncateWalk n next.2 cluster next.1
    else ((prev,cluster),d)

/-- The second loop of `truncate_file_at`: `prev` is 0 as soon as a cluster has been freed. -/
def truncateFree : ℕ → Device → ℕ → ℕ → Bool → Option (ℕ × Bool × Device)
  | 0, _, _, _, _ => none
  | fuel+1, d, prev, cluster, rc =>
    if cluster < fat32Eoc then
      let next := nextCluster g d cluster
      let w := linkCluster g next.2 cluster 0
      truncateFree fuel w.2 0 next.1 (rc && w.1)
    else some (prev,rc,d)

def truncateFileAt (fuel : ℕ) (d : Device) (f : File) (target : ℕ) : Option (Bool × Device) :=
  if f.startCluster = 0 ∨ fat32Eoc ≤ f.startCluster then some (true,d)
  else
    let r := truncateWalk g target d 0 f.startCluster
    (truncateFree g fuel r.2 r.1.1 r.1.2 true).map fun t =>
      if t.1 = 0 then t.2
      else
        let w := linkCluster g t.2.2 t.1 fat32Eoc
        (t.2.1 && w.1,w.2)

/-- The loop of `Harlin_Write`: whether every cluster could be written, and what is left. -/
def writeFileLoop : ℕ → Device → File → Buffer → ℕ → Bool × ℕ × Device × File
  | 0, d, f, _, remaining => (true,remaining,d,f)
  | fuel+1, d, f, src, remaining =>
    if 0 < remaining ∧ f.currentCluster < fat32Eoc then
      let clusterPos := f.position % g.clusterSize
      let chunk := min (g.clusterSize-clusterPos) remaining
      let r :=
        if chunk < g.clusterSize then readCluster g d f.currentCluster
        else (some fun _ => 0,d)
      match r.1 with
      | none => (false,remaining,r.2,f)
      | some buf =>
        let w := writeCluster g r.2 f.currentCluster (copyBytes buf clusterPos src chunk)
        if w.1 then
          let f := { f with position := (f.position+chunk) % 2^32 }
          let src := fun i => src (i+chunk)
          if 0 < remaining-chunk then
            let next := nextCluster g w.2 f.currentCluster
            writeFileLoop fuel next.2 { f with currentCluster := next.1 } src (remaining-chunk)
          else writeFileLoop fuel w.2 f src (remaining-chunk)
        else (false,remaining,w.2,f)
    else (true,remaining,d,f)

/-- What `Harlin_Write` does after a failure, to the handle `f` that was `orig` before. -/
def rollback (fuel : ℕ) (d : Device) (orig f : File) : Option (Option ℕ × Device × File) :=
  let target := if orig.startCluster = 0 then 0
    else (orig.size+g.clusterSize-1) % 2^32/g.clusterSize
  (truncateFileAt g fuel d f target).map fun t =>
    let f := if orig.startCluster = 0 then { f with startCluster := 0 } else f
    (none,t.2,
      { f with
        size := orig.size
        position := orig.position
        currentCluster := orig.currentCluster
        damaged := if t.1 then f.damaged else true })

/-- The handle with which the loop of `Harlin_Write` starts. -/
def cursorReset (f : File) : File :=
  if f.currentCluster = 0 ∨ fat32Eoc ≤ f.currentCluster then
    { f with currentCluster := f.startCluster }
  else f

/-- The part of `Harlin_Write` after the extension of the chain. -/
def writeExtended (fuel : ℕ) (d : Device) (orig f : File) (src : Buffer) (len : ℕ) :
    Option (Option ℕ × Device × File) :=
  let w := writeFileLoop g len d (cursorReset f) src len
  if w.1 then
    let f := { w.2.2.2 with size := max w.2.2.2.size w.2.2.2.position }
    let u := updateDirectorySize g w.2.2.1 f
    if u.1 then some (some (len-w.2.1),u.2,f) else rollback g fuel u.2 orig f
  else rollback g fuel w.2.2.1 orig w.2.2.2

/-- `Harlin_Write`: the number that is cast to `int` and returned, `none` for
`HARLIN_FS_ERROR`. -/
def harlinWrite (fuel : ℕ) (d : Device) (orig : File) (src : Buffer) (len : ℕ) :
    Option (Option ℕ × Device × File) :=
  if len = 0 then some (some 0,d,orig)
  else
    let needed := (orig.position+len+g.clusterSize-1) % 2^32/g.clusterSize
    let e := extendFileClusters g d orig needed
    if e.1 then writeExtended g fuel e.2.1 orig e.2.2 src len else some (none,e.2)

end HarlinKernel.Fat32
