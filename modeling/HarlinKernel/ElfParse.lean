import HarlinKernel.BoundedReads

/-! The readers of `proc/elf.c`. An image is read through the kernel's memory, in which bytes
may be unmapped: a reader that touches one faults and does not return. Pointers into the image
are offsets from its first byte, modulo 2^64. A reader that returns -1 gives no outcome. -/
namespace HarlinKernel.ElfParse

open BoundedReads hiding Memory

abbrev Memory := BoundedReads.Memory ℕ UInt8

def byteAt (m : Memory) (off : ℕ) : Option UInt8 := m (off % 2^64)

def bytesAt (m : Memory) : ℕ → ℕ → Option (List UInt8)
  | _, 0 => some []
  | off, n+1 => (byteAt m off).bind fun b => (bytesAt m (off+1) n).map (b :: ·)

/-- The number with the given bytes, the lowest first. -/
def number : List UInt8 → ℕ
  | [] => 0
  | b :: bs => b.toNat+256*number bs

def readUint (n : ℕ) (m : Memory) (off : ℕ) (le : Bool) : Option ℕ :=
  (bytesAt m off n).map fun bs => number (if le then bs else bs.reverse)

def readU16 : Memory → ℕ → Bool → Option ℕ := readUint 2
def readU32 : Memory → ℕ → Bool → Option ℕ := readUint 4
/-- Numbers of the given widths, one after the other. -/
def fieldsAt (m : Memory) (le : Bool) : ℕ → List ℕ → Option (List ℕ)
  | _, [] => some []
  | off, w :: ws => (readUint w m off le).bind fun v => (fieldsAt m le (off+w) ws).map (v :: ·)

/-- The outcome of `elf_parse_header`, but for the pointer to the image. -/
structure ElfInfo where
  is64 : Bool
  isLe : Bool
  eType : ℕ
  eMachine : ℕ
  eEntry : ℕ
  ePhnum : ℕ
  eShnum : ℕ
  eShstrndx : ℕ
  rawSize : ℕ
  deriving DecidableEq

structure ElfSegment where
  pType : ℕ
  pFlags : ℕ
  pOffset : ℕ
  pVaddr : ℕ
  pPaddr : ℕ
  pFilesz : ℕ
  pMemsz : ℕ
  pAlign : ℕ
  deriving DecidableEq

/-- `sh_name_str`: not set, in the image, or the empty string of the code. -/
inductive NamePtr
  | null
  | image (off : ℕ)
  | empty
  deriving DecidableEq

structure ElfSection where
  shName : ℕ
  shType : ℕ
  shFlags : ℕ
  shAddr : ℕ
  shOffset : ℕ
  shSize : ℕ
  shLink : ℕ
  shInfo : ℕ
  shAddralign : ℕ
  shEntsize : ℕ
  shNameStr : NamePtr
  deriving DecidableEq

def elfCheckMagic (m : Memory) (size : ℕ) : Option Bool :=
  if size < 16 then some false
  else
    (bytesAt m 0 8).map fun p =>
      decide (p.take 4 = [0x7F,0x45,0x4C,0x46] ∧ (p.getD 4 0 = 1 ∨ p.getD 4 0 = 2) ∧
        (p.getD 5 0 = 1 ∨ p.getD 5 0 = 2) ∧ p.getD 6 0 = 1 ∧
        (p.getD 7 0 = 0 ∨ p.getD 7 0 = 1 ∨ p.getD 7 0 = 3))

/-- Where the file header of a class has the entry point and the last three counts, and its
length. -/
structure Ehdr where
  entryWidth : ℕ
  phnum : ℕ
  shnum : ℕ
  shstrndx : ℕ
  size : ℕ

def ehdr64 : Ehdr := ⟨8,56,60,62,64⟩
def ehdr32 : Ehdr := ⟨4,44,48,50,52⟩

/-- The fields are read in the processor's byte order, whatever the file says. -/
def readEhdr (h : Ehdr) (m : Memory) (size : ℕ) (is64 isLe : Bool) : Option (Option ElfInfo) :=
  if size < h.size then some none
  else
    (readU16 m 16 true).bind fun eType => (readU16 m 18 true).bind fun eMachine =>
    (readUint h.entryWidth m 24 true).bind fun eEntry => (readU16 m h.phnum true).bind fun ePhnum =>
    (readU16 m h.shnum true).bind fun eShnum => (readU16 m h.shstrndx true).map fun eShstrndx =>
      some ⟨is64,isLe,eType,eMachine,eEntry,ePhnum,eShnum,eShstrndx,size⟩

def elfParseHeader (m : Memory) (size : ℕ) : Option (Option ElfInfo) :=
  (elfCheckMagic m size).bind fun ok =>
    if ok = false then some none
    else
      (byteAt m 5).bind fun data => (byteAt m 4).bind fun cls =>
        if cls = 2 then readEhdr ehdr64 m size true (data = 1)
        else readEhdr ehdr32 m size false (data = 1)

/-- A table of headers: where the file header has its offset, how wide that is, where the
distance of two entries is, and the widths of the fields of an entry. -/
structure Table where
  offAt : ℕ
  offWidth : ℕ
  entsizeAt : ℕ
  widths : List ℕ

def phdr64 : Table := ⟨32,8,54,[4,4,8,8,8,8,8,8]⟩
def phdr32 : Table := ⟨28,4,42,[4,4,4,4,4,4,4,4]⟩
def shdr64 : Table := ⟨40,8,58,[4,4,8,8,8,8,4,4,8,8]⟩
def shdr32 : Table := ⟨32,4,46,[4,4,4,4,4,4,4,4,4,4]⟩

/-- The fields of entry `idx` of a table with `count` entries. -/
def readEntry (t : Table) (m : Memory) (size : ℕ) (le : Bool) (count : ℕ) (idx : ℤ) :
    Option (Option (List ℕ)) :=
  if idx < 0 ∨ (count : ℤ) ≤ idx then some none
  else
    (readUint t.offWidth m t.offAt le).bind fun base =>
      (readU16 m t.entsizeAt le).bind fun entsize =>
      let off := (base+idx.toNat*entsize) % 2^64
      if size < (off+t.widths.sum) % 2^64 then some none
      else (fieldsAt m le off t.widths).map some

def ElfInfo.phdr (info : ElfInfo) : Table := if info.is64 then phdr64 else phdr32
def ElfInfo.shdr (info : ElfInfo) : Table := if info.is64 then shdr64 else shdr32

/-- The classes order the fields of a program header differently. -/
def segmentOf (is64 : Bool) (fs : List ℕ) : ElfSegment :=
  let f := fun i => fs.getD i 0
  if is64 then ⟨f 0,f 1,f 2,f 3,f 4,f 5,f 6,f 7⟩ else ⟨f 0,f 6,f 1,f 2,f 3,f 4,f 5,f 7⟩

def sectionOf (fs : List ℕ) : ElfSection :=
  let f := fun i => fs.getD i 0
  ⟨f 0,f 1,f 2,f 3,f 4,f 5,f 6,f 7,f 8,f 9,.null⟩

def elfLoadSegment (m : Memory) (size : ℕ) (info : ElfInfo) (segIndex : ℤ) :
    Option (Option ElfSegment) :=
  (readEntry info.phdr m size info.isLe info.ePhnum segIndex).map fun r =>
    r.map (segmentOf info.is64)

def elfGetSection (m : Memory) (size : ℕ) (info : ElfInfo) (idx : ℤ) : Option (Option ElfSection) :=
  (readEntry info.shdr m size info.isLe info.eShnum idx).map fun r => r.map sectionOf

/-- `Harlin_Compare` of a string in the image with one of the kernel. -/
def harlinCompare (m : Memory) : ℕ → List UInt8 → Option ℤ
  | off, [] => (byteAt m off).map fun a => a.toInt8.toInt
  | off, b :: bs => (byteAt m off).bind fun a =>
    if a = 0 ∨ b = 0 ∨ a ≠ b then some (a.toInt8.toInt-b.toInt8.toInt)
      else harlinCompare m (off+1) bs

def buildShNameStrtab (m : Memory) (size : ℕ) (info : ElfInfo) (arr : List ElfSection) :
    Option (ℤ × List ElfSection) :=
  if info.eShstrndx = 0 ∨ info.eShnum ≤ info.eShstrndx then some (0,arr)
  else
    (elfGetSection m size info info.eShstrndx).map fun
      | none => (-1,arr)
      | some shstr =>
        if size < (shstr.shOffset+shstr.shSize) % 2^64 then (-1,arr)
        else
          (0,arr.map fun s =>
            { s with
              shNameStr :=
                if s.shName < shstr.shSize then .image ((shstr.shOffset+s.shName) % 2^64)
                else .empty })

/-- The section's name is the given one. -/
def nameIs (m : Memory) (name : List UInt8) (s : ElfSection) : Option Bool :=
  match s.shNameStr with
  | .null => some false
  | .image off => (harlinCompare m off name).map fun c => decide (c = 0)
  | .empty => some (decide (name.headD 0 = 0))

/-- Section `i` if it has the name. -/
def named (arr : List ElfSection) (name : List UInt8) (i : ℕ) (m : Memory) :
    Option (Option ElfSection) :=
  match arr[i]? with
  | none => some none
  | some s => (nameIs m name s).map fun same => if same then some s else none

/-- `kmallocOk` if the array of headers could be allocated. -/
def elfFindSection (m : Memory) (size : ℕ) (info : ElfInfo) (name : List UInt8) (kmallocOk : Bool) :
    Option (Option ElfSection) :=
  if info.eShnum = 0 ∨ kmallocOk = false then some none
  else
    (collect (fun i m => elfGetSection m size info i) m info.eShnum 0).bind fun
      | none => some none
      | some tmp => (buildShNameStrtab m size info tmp).bind fun r =>
          scan (named r.2 name) m info.eShnum 0

/-- The loop that copies a name of at most `n` bytes. -/
def copyName (m : Memory) : ℕ → ℕ → Option (List UInt8)
  | _, 0 => some []
  | off, n+1 => (byteAt m off).bind fun c =>
    if c = 0 then some [] else (copyName m (off+1) n).map (c :: ·)

/-- Where entry `i` of a symbol table starts. -/
def symbolOff (symtab : ElfSection) (i : ℕ) : ℕ := (symtab.shOffset+i*symtab.shEntsize) % 2^64

/-- The bytes stored in `out_name`. -/
def elfSymbolName (m : Memory) (size : ℕ) (symtab strtab : ElfSection) (symIndex outMax : ℤ) :
    Option (Option (List UInt8)) :=
  if outMax ≤ 0 ∨ symtab.shEntsize = 0 then some none
  else
    let off := symbolOff symtab (symIndex % 2^64).toNat
    if size < (off+4) % 2^64 then some none
    else
      (readU32 m off true).bind fun stName =>
        if strtab.shSize ≤ stName then some none
        else
          (copyName m (strtab.shOffset+stName) (outMax.toNat-1)).map fun name => some (name ++ [0])

/-- The bytes of a symbol that the caller wants. -/
def symbolWidth (is64 out64 out32 : Bool) : ℕ :=
  if is64 then (if out64 then 24 else 0) else (if out32 then 16 else 0)

/-- Symbol `i` if it has the name. -/
def symbolNamed (symtab strtab : ElfSection) (name : List UInt8) (width i : ℕ) (m : Memory) :
    Option (Option (List UInt8)) :=
  (readU32 m (symbolOff symtab i) true).bind fun stName =>
    if strtab.shSize ≤ stName then some none
    else
      (harlinCompare m (strtab.shOffset+stName) name).bind fun c =>
        if c = 0 then (bytesAt m (symbolOff symtab i) width).map some else some none

def dotSymtab : List UInt8 := [0x2E,0x73,0x79,0x6D,0x74,0x61,0x62]

/-- The bytes stored in the caller's symbol; `out64` and `out32` if there is one. -/
def elfFindSymbol (m : Memory) (size : ℕ) (info : ElfInfo) (name : List UInt8)
    (kmallocOk out64 out32 : Bool) : Option (Option (List UInt8)) :=
  (elfFindSection m size info dotSymtab kmallocOk).bind fun
    | none => some none
    | some symtab =>
      if symtab.shLink = 0 ∨ info.eShnum ≤ symtab.shLink then some none
      else
        (elfGetSection m size info symtab.shLink).bind fun
          | none => some none
          | some strtab =>
            if symtab.shEntsize = 0 then some none
            else
              scan (symbolNamed symtab strtab name (symbolWidth info.is64 out64 out32)) m
                (symtab.shSize / symtab.shEntsize) 0

inductive Query
  | parseHeader
  | loadSegment (info : ElfInfo) (segIndex : ℤ)
  | getSection (info : ElfInfo) (idx : ℤ)
  | findSection (info : ElfInfo) (name : List UInt8) (kmallocOk : Bool)
  | symbolName (symtab strtab : ElfSection) (symIndex outMax : ℤ)
  | findSymbol (info : ElfInfo) (name : List UInt8) (kmallocOk out64 out32 : Bool)

/-- What a call that returned 0 stored. -/
inductive Outcome
  | header (info : ElfInfo)
  | segment (seg : ElfSegment)
  | sectionHeader (sec : ElfSection)
  | bytes (bs : List UInt8)
  deriving DecidableEq

def Query.run (size : ℕ) (m : Memory) : Query → Option (Option Outcome)
  | .parseHeader => (elfParseHeader m size).map (Option.map .header)
  | .loadSegment info i => (elfLoadSegment m size info i).map (Option.map .segment)
  | .getSection info i => (elfGetSection m size info i).map (Option.map .sectionHeader)
  | .findSection info name ok =>
      (elfFindSection m size info name ok).map (Option.map .sectionHeader)
  | .symbolName symtab strtab i max =>
      (elfSymbolName m size symtab strtab i max).map (Option.map .bytes)
  | .findSymbol info name ok out64 out32 =>
    (elfFindSymbol m size info name ok out64 out32).map (Option.map .bytes)

end HarlinKernel.ElfParse
