import HarlinKernel.Fat32

/-! Paths, creation and removal of `fs/fat32.c`. A result is missing where a loop does not end
within its bound, and where the source follows a null pointer. -/
namespace HarlinKernel.Fat32

/-- The mounted volume, the working directory, and what `Harlin_Initramfs_Open` stores for a
name that it knows. -/
structure Volume where
  geo : Geometry
  dev : Device
  currentDirCluster : ℕ
  initramfs : List UInt8 → Option File

def Volume.setDev (v : Volume) (d : Device) : Volume := { v with dev := d }

/-- The loop of `resolve_path` over the components of a path that has a slash. The name that it
hands back is always null. -/
def resolveComponents (g : Geometry) (fuel : ℕ) :
    ℕ → Device → ℕ → List UInt8 → Option (Option ℕ × Device)
  | 0, _, _, _ => none
  | steps+1, d, cur, comp =>
    if comp = [] then some (some cur,d)
    else
      let seg := comp.takeWhile (· ≠ slash)
      let next := if slash ∈ comp then some (comp.drop (seg.length+1)) else none
      -- the rest of a round, from the cluster that the component leads to
      let goOn (d : Device) (cur : ℕ) : Option (Option ℕ × Device) :=
        match next with
        | none => some (some cur,d)
        | some rest => resolveComponents g fuel steps d cur rest
      if seg = [] ∨ seg = [dot] then goOn d cur
      else if seg = [dot,dot] then
        if cur = g.rootCluster then
          match next with
          | none => none
          | some rest => resolveComponents g fuel steps d cur rest
        else
          let r := readCluster g d cur
          match r.1 with
          | none => some (none,r.2)
          | some buf => goOn r.2 (entryCluster buf)
      else
        match findEntryInDir g seg fuel d cur with
        | none => none
        | some (none,d) => some (none,d)
        | some (some f,d) => if f.attr &&& 0x10 = 0 then some (none,d) else goOn d f.fileCluster

/-- `resolve_path`: the cluster of the directory and the name, `none` for a null pointer. -/
def resolvePath (fuel : ℕ) (v : Volume) (path : List UInt8) :
    Option (Option (ℕ × Option (List UInt8)) × Device) :=
  if path = [] then some (none,v.dev)
  else
    let cur := if path.head? = some slash then v.geo.rootCluster else v.currentDirCluster
    if slash ∈ path then
      let comp := if path.head? = some slash then path.tail else path
      (resolveComponents v.geo fuel (path.length+1) v.dev cur comp).map fun r =>
        (r.1.map fun dir => (dir,none),r.2)
    else some (some (cur,some path),v.dev)

/-- The bytes that `Harlin_Create` and `Harlin_Mkdir` store in a directory entry. -/
def fillEntry (buf : Buffer) (offset : ℕ) (short : List UInt8) (attr : UInt8) (cluster : ℕ) :
    Buffer :=
  let buf : Buffer := fun i =>
    if offset ≤ i ∧ i < offset+11 then short.getD (i-offset) 0 else buf i
  let buf := setByte buf (offset+11) attr.toNat
  let buf := setByte buf (offset+12) 0
  let buf := setByte buf (offset+13) 0
  let buf := writeLe16 buf (offset+14) 0
  let buf := writeLe16 buf (offset+16) 0
  let buf := writeLe16 buf (offset+18) 0
  let buf := writeLe16 buf (offset+20) 0
  let buf := writeLe16 buf (offset+22) 0
  let buf := writeLe16 buf (offset+24) 0
  let buf := writeLe16 buf (offset+26) (cluster/2^16)
  let buf := writeLe16 buf (offset+28) 0
  let buf := writeLe16 buf (offset+30) (cluster % 2^16)
  writeLe32 buf (offset+0x1C) 0

/-- The entry of a removed file or directory. -/
def clearEntry (buf : Buffer) (offset : ℕ) : Buffer := fun i =>
  if i = offset then fat32Deleted else if offset < i ∧ i < offset+32 then 0 else buf i

/-- The first cluster of a new directory. -/
def dotEntries (new parent : ℕ) : Buffer :=
  let buf : Buffer := fun _ => 0
  let buf := setByte buf 0 dot.toNat
  let buf := writeLe16 buf 0x1A (new % 2^16)
  let buf := writeLe16 buf 0x14 (new/2^16)
  let buf := setByte buf 11 0x10
  let buf := setByte buf 32 dot.toNat
  let buf := setByte buf 33 dot.toNat
  let buf := writeLe16 buf (0x1A+32) (parent % 2^16)
  let buf := writeLe16 buf (0x14+32) (parent/2^16)
  setByte buf (32+11) 0x10

def harlinOpen (fuel : ℕ) (v : Volume) (name : List UInt8) (out : File) :
    Option (ℤ × Volume × File) :=
  match v.initramfs name with
  | some f => some (harlinFsOk,v,f)
  | none =>
    match resolvePath fuel v name with
    | none => none
    | some (none,d) => some (harlinFsError,v.setDev d,out)
    | some (some (_,none),d) => some (harlinFsError,v.setDev d,out)
    | some (some (dir,some fname),d) =>
      match findEntryInDir v.geo fname fuel d dir with
      | none => none
      | some (none,d) => some (harlinFsError,v.setDev d,out)
      | some (some f,d) =>
        if f.attr &&& 0x10 ≠ 0 then some (harlinFsError,v.setDev d,out)
        else
          some (harlinFsOk,v.setDev d,
            { out with
              startCluster := f.fileCluster
              currentCluster := f.fileCluster
              position := 0
              size := f.fileSize
              dirCluster := f.cluster
              dirOffset := f.offset
              ramfs := none })

/-- The last part of a creation: a free slot of the directory, a new cluster with the contents
`first`, and the entry in the slot; the new cluster and the slot. -/
def addEntry (fuel : ℕ) (g : Geometry) (d : Device) (dir : ℕ) (short : List UInt8) (attr : UInt8)
    (first : ℕ → Buffer) : Option (Option (ℕ × ℕ × ℕ) × Device) :=
  match findDirectorySlotIn g fuel d dir with
  | none => none
  | some (none,d) => some (none,d)
  | some (some (dirCluster,dirOffset),d) =>
    let a := allocateCluster g d
    match a.1 with
    | none => some (none,a.2)
    | some cluster =>
      let w := writeCluster g a.2 cluster (first cluster)
      if w.1 then
        let r := readCluster g w.2 dirCluster
        match r.1 with
        | none => some (none,r.2)
        | some buf =>
          let e := writeCluster g r.2 dirCluster (fillEntry buf dirOffset short attr cluster)
          some (if e.1 then some (cluster,dirCluster,dirOffset) else none,e.2)
      else some (none,w.2)

def harlinCreate (fuel : ℕ) (v : Volume) (name : List UInt8) (out : File) :
    Option (ℤ × Volume × File) :=
  match resolvePath fuel v name with
  | none => none
  | some (none,d) => some (harlinFsError,v.setDev d,out)
  | some (some (_,none),d) => some (harlinFsError,v.setDev d,out)
  | some (some (dir,some fname),d) =>
    match makeShortName fname with
    | none => some (harlinFsError,v.setDev d,out)
    | some short =>
      match findEntryInDir v.geo fname fuel d dir with
      | none => none
      | some (found,d) =>
        if found.any fun f => f.attr &&& 0x10 = 0 then some (harlinFsError,v.setDev d,out)
        else
          (addEntry fuel v.geo d dir short 0x20 fun _ _ => 0).map fun r =>
            match r.1 with
            | none => (harlinFsError,v.setDev r.2,out)
            | some (cluster,dirCluster,dirOffset) =>
              (harlinFsOk,v.setDev r.2,
                { out with
                  startCluster := cluster
                  currentCluster := cluster
                  position := 0
                  size := 0
                  dirCluster := dirCluster
                  dirOffset := dirOffset })

def harlinMkdir (fuel : ℕ) (v : Volume) (path : List UInt8) : Option (ℤ × Volume) :=
  match resolvePath fuel v path with
  | none => none
  | some (none,d) => some (harlinFsError,v.setDev d)
  | some (some (_,none),d) => some (harlinFsError,v.setDev d)
  | some (some (dir,some dirname),d) =>
    match makeShortName dirname with
    | none => some (harlinFsError,v.setDev d)
    | some short =>
      match findEntryInDir v.geo dirname fuel d dir with
      | none => none
      | some (some _,d) => some (harlinFsError,v.setDev d)
      | some (none,d) =>
        (addEntry fuel v.geo d dir short 0x10 fun new => dotEntries new dir).map fun r =>
          (if r.1.isSome then harlinFsOk else harlinFsError,v.setDev r.2)

def harlinDeleteFile (fuel : ℕ) (v : Volume) (name : List UInt8) : Option (ℤ × Volume) :=
  match resolvePath fuel v name with
  | none => none
  | some (none,d) => some (harlinFsError,v.setDev d)
  | some (some (_,none),d) => some (harlinFsError,v.setDev d)
  | some (some (dir,some fname),d) =>
    match findEntryInDir v.geo fname fuel d dir with
    | none => none
    | some (none,d) => some (harlinFsError,v.setDev d)
    | some (some f,d) =>
      if f.attr &&& 0x10 ≠ 0 then some (harlinFsError,v.setDev d)
      else
        let r := readCluster v.geo d f.cluster
        match r.1 with
        | none => some (harlinFsError,v.setDev r.2)
        | some buf =>
          let w := writeCluster v.geo r.2 f.cluster (clearEntry buf f.offset)
          if w.1 then
            (freeChain v.geo fuel w.2 f.fileCluster).map fun d => (harlinFsOk,v.setDev d)
          else some (harlinFsError,v.setDev w.2)

def harlinCd (fuel : ℕ) (v : Volume) (path : List UInt8) : Option (ℤ × Volume) :=
  if path = [] then some (harlinFsError,v)
  else if path = [slash] then
    some (harlinFsOk,{ v with currentDirCluster := v.geo.rootCluster })
  else
    match resolvePath fuel v path with
    | none => none
    | some (none,d) => some (harlinFsError,v.setDev d)
    | some (some (dir,none),d) => some (harlinFsOk,{ v.setDev d with currentDirCluster := dir })
    | some (some (dir,some fname),d) =>
      match findEntryInDir v.geo fname fuel d dir with
      | none => none
      | some (none,d) => some (harlinFsError,v.setDev d)
      | some (some f,d) =>
        if f.attr &&& 0x10 = 0 then some (harlinFsError,v.setDev d)
        else some (harlinFsOk,{ v.setDev d with currentDirCluster := f.fileCluster })

end HarlinKernel.Fat32
