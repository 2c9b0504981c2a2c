import HarlinKernel.ElfParse

/-! When the outcome of a reader of `proc/elf.c` depends on the bytes of the file alone. -/
namespace HarlinKernel.ElfParse

open BoundedReads hiding Memory

/-- An image, whose length is a 64-bit number. -/
structure File where
  bytes : List UInt8
  small : bytes.length < 2^64

namespace File

def size (f : File) : ℕ := f.bytes.length

def image (f : File) (a : ℕ) : UInt8 := f.bytes.getD a 0

/-- The memory in which no byte beside the file is mapped. -/
def alone (f : File) : Memory := only (· < f.size) f.image

/-- The file followed by zeros. -/
def extended (f : File) : Memory := full f.image

def byte (f : File) (off : ℕ) : UInt8 := f.image (off % 2^64)

def slice (f : File) (off n : ℕ) : List UInt8 := (List.range' off n).map f.byte

def uint (f : File) (n off : ℕ) (le : Bool) : ℕ :=
  number (if le then f.slice off n else (f.slice off n).reverse)

def fields (f : File) (le : Bool) : ℕ → List ℕ → List ℕ
  | _, [] => []
  | off, w :: ws => f.uint w off le :: f.fields le (off+w) ws

/-- The bytes lie in the file. -/
def Has (f : File) (off n : ℕ) : Prop := ∀ i < n, (off+i) % 2^64 < f.size

end File

/-- A computation that returns `a` with zeros after the file, and with the file alone exactly if
`c`. -/
abbrev File.Reads {α : Type} (f : File) (x : Memory → Option α) (c : Prop) (a : α) : Prop :=
  BoundedReads.Reads (· < f.size) f.image x c a

variable {f : File}

lemma reads_byteAt (off : ℕ) :
    f.Reads (fun m => byteAt m off) (off % 2^64 < f.size) (f.byte off) := .read _

lemma has_zero (off : ℕ) : f.Has off 0 := fun _ hi => absurd hi (Nat.not_lt_zero _)

lemma has_succ (off n : ℕ) : f.Has off (n+1) ↔ off % 2^64 < f.size ∧ f.Has (off+1) n := by
  rw [File.Has,Nat.forall_lt_succ_left]
  simp [File.Has,Nat.add_assoc,Nat.add_comm 1]

lemma has_add (off n k : ℕ) : f.Has off (n+k) ↔ f.Has off n ∧ f.Has (off+n) k := by
  induction n generalizing off with
  | zero => simp [File.Has]
  | succ n ih =>
    rw [Nat.succ_add,has_succ,ih,has_succ,and_assoc,Nat.add_assoc,Nat.add_comm 1 n]

lemma reads_bytesAt (off n : ℕ) :
    f.Reads (fun m => bytesAt m off n) (f.Has off n) (f.slice off n) := by
  induction n generalizing off with
  | zero => exact (Reads.pure []).congr (by simp [File.Has]) rfl
  | succ n ih =>
    exact ((reads_byteAt off).bind fun b =>
      (ih (off+1)).map (b :: ·)).congr (has_succ off n).symm rfl

lemma reads_readUint (n off : ℕ) (le : Bool) :
    f.Reads (fun m => readUint n m off le) (f.Has off n) (f.uint n off le) :=
  (reads_bytesAt off n).map _

lemma reads_fieldsAt (le : Bool) (off : ℕ) (ws : List ℕ) :
    f.Reads (fun m => fieldsAt m le off ws) (f.Has off ws.sum) (f.fields le off ws) := by
  induction ws generalizing off with
  | nil => exact (Reads.pure []).congr (by simp [File.Has]) rfl
  | cons w ws ih =>
    refine ((reads_readUint w off le).bind fun v => (ih (off+w)).map (v :: ·)).congr ?_ rfl
    rw [List.sum_cons,has_add]

section Entries

variable (t : Table) (le : Bool)

/-- Where entry `i` of a table starts. -/
def Table.offset (f : File) (i : ℕ) : ℕ :=
  (f.uint t.offWidth t.offAt le+i*f.uint 2 t.entsizeAt le) % 2^64

/-- The entry passes the test against the size. -/
def Table.Accepts (f : File) (i : ℕ) : Prop :=
  (t.offset le f i+t.widths.sum) % 2^64 ≤ f.size

/-- The fields of the file header that place the entry lie in the file, and the entry itself if
it passes the test, which it also does where its end wraps at 2^64. -/
def Table.Fits (f : File) (i : ℕ) : Prop :=
  f.Has t.offAt t.offWidth ∧ f.Has t.entsizeAt 2 ∧
    (t.Accepts le f i → f.Has (t.offset le f i) t.widths.sum)

instance (f : File) (i : ℕ) : Decidable (t.Accepts le f i) := inferInstanceAs (Decidable (_ ≤ _))

lemma reads_readEntry (count : ℕ) (idx : ℤ) : f.Reads (fun m => readEntry t m f.size le count idx)
    (0 ≤ idx → idx < count → t.Fits le f idx.toNat)
    (if 0 ≤ idx ∧ idx < count ∧ t.Accepts le f idx.toNat then
      some (f.fields le (t.offset le f idx.toNat) t.widths) else none) := by
  refine (Reads.guard none ((reads_readUint ..).bind fun base =>
    (reads_readUint ..).bind fun entsize =>
    Reads.guard none ((reads_fieldsAt ..).map some))).congr ?_ ?_
  · simp only [not_or,not_lt,not_le,and_imp]
    rfl
  · by_cases hidx : idx < 0 ∨ idx ≥ count
    · rw [if_pos hidx,if_neg (by omega)]
    · push Not at hidx
      rw [if_neg (by omega),← Table.offset,← ite_not]
      simp only [hidx.1,hidx.2,not_lt,true_and]
      rfl

end Entries

/-- The comparison with `name` ends in the file: some byte of the string in it differs from the
name or ends both. -/
def Decided (f : File) (off : ℕ) (name : List UInt8) : Prop :=
  ∃ k ≤ name.length, f.Has off (k+1) ∧
    (f.byte (off+k) = 0 ∨ name.getD k 0 = 0 ∨ f.byte (off+k) ≠ name.getD k 0)

/-- Copying at most `n` bytes of the string ends in the file. -/
def Ended (f : File) (off n : ℕ) : Prop :=
  ∃ k ≤ n, f.Has off k ∧ (k = n ∨ f.Has off (k+1) ∧ f.byte (off+k) = 0)

/-- The string at an offset, with zeros after the file, is the name. -/
def Spells (f : File) (off : ℕ) (name : List UInt8) : Prop :=
  harlinCompare f.extended off name = some 0

instance (f : File) (off : ℕ) (name : List UInt8) : Decidable (Spells f off name) :=
  inferInstanceAs (Decidable (_ = _))

lemma exists_le_succ {P : ℕ → Prop} {n : ℕ} : (∃ k ≤ n+1, P k) ↔ P 0 ∨ ∃ k ≤ n, P (k+1) := by
  simpa only [Nat.lt_succ_iff] using Nat.exists_lt_succ_left (n:=n+1)

lemma decided_cons (off : ℕ) (b : UInt8) (bs : List UInt8) : Decided f off (b :: bs) ↔
    off % 2^64 < f.size ∧ (f.byte off = 0 ∨ b = 0 ∨ f.byte off ≠ b ∨ Decided f (off+1) bs) := by
  rw [Decided,List.length_cons,exists_le_succ,Decided]
  -- the first byte, or a later one with the offsets counted from the second
  simp only [has_succ,has_zero,List.getD_cons_zero,List.getD_cons_succ,Nat.add_zero,and_true,
    Nat.add_assoc,Nat.add_comm 1]
  grind

lemma reads_harlinCompare (off : ℕ) (name : List UInt8) :
    ∃ c, f.Reads (fun m => harlinCompare m off name) (Decided f off name) c ∧
      (Spells f off name ↔ c = 0) := by
  have hrd : ∃ c, f.Reads (fun m => harlinCompare m off name) (Decided f off name) c := by
    induction name generalizing off with
    | nil =>
      refine ⟨_,((reads_byteAt off).map _).congr ⟨fun h => ?_,?_⟩ rfl⟩
      · exact ⟨0,le_rfl,(has_succ off 0).mpr ⟨h,has_zero _⟩,.inr (.inl rfl)⟩
      · rintro ⟨k,-,hhas,-⟩
        exact ((has_succ off k).mp hhas).1
    | cons b bs ih =>
      obtain ⟨c,hc⟩ := ih (off+1)
      refine ⟨_,((reads_byteAt off).bind fun a => Reads.guard _ hc).congr ?_ rfl⟩
      rw [decided_cons]
      tauto
  obtain ⟨c,hc⟩ := hrd
  refine ⟨c,hc,?_⟩
  rw [Spells,File.extended,hc.full,Option.some.injEq]

lemma ended_succ (off n : ℕ) : Ended f off (n+1) ↔
    off % 2^64 < f.size ∧ (f.byte off = 0 ∨ Ended f (off+1) n) := by
  rw [Ended,exists_le_succ,Ended]
  simp only [has_succ,has_zero,Nat.add_zero,and_true,Nat.add_assoc,Nat.add_comm 1]
  grind

lemma reads_copyName (off n : ℕ) : ∃ s, f.Reads (fun m => copyName m off n) (Ended f off n) s := by
  induction n generalizing off with
  | zero =>
      exact ⟨[],(Reads.pure []).congr (iff_of_true trivial ⟨0,le_rfl,has_zero off,.inl rfl⟩) rfl⟩
  | succ n ih =>
    obtain ⟨s,hs⟩ := ih (off+1)
    refine ⟨_,((reads_byteAt off).bind fun c => Reads.guard [] (hs.map (c :: ·))).congr ?_ rfl⟩
    rw [ended_succ]
    tauto

lemma has_of_le {off n : ℕ} (h : off+n ≤ f.size) : f.Has off n := by
  intro i hi
  have hsm : f.size < 2^64 := f.small
  omega

lemma reads_readEhdr (h : Ehdr) (is64 isLe : Bool) (hen : 24+h.entryWidth ≤ h.size)
    (hph : h.phnum+2 ≤ h.size) (hsh : h.shnum+2 ≤ h.size) (hst : h.shstrndx+2 ≤ h.size) :
    ∃ r, f.Reads (fun m => readEhdr h m f.size is64 isLe) True r := by
  refine ⟨_,(Reads.guard none ((reads_readUint ..).bind fun _ => (reads_readUint ..).bind fun _ =>
    (reads_readUint ..).bind fun _ => (reads_readUint ..).bind fun _ =>
      (reads_readUint ..).bind fun _ =>
    (reads_readUint ..).map _)).congr (iff_of_true (fun hlr => ?_) trivial) rfl⟩
  exact ⟨has_of_le (by omega),has_of_le (by omega),has_of_le (by omega),has_of_le (by omega),
    has_of_le (by omega),has_of_le (by omega)⟩

lemma reads_elfParseHeader (f : File) : ∃ r, f.Reads (fun m => elfParseHeader m f.size) True r := by
  choose r64 h64 using fun le => reads_readEhdr (f := f) ehdr64 true le (by decide) (by decide)
    (by decide) (by decide)
  choose r32 h32 using fun le => reads_readEhdr (f := f) ehdr32 false le (by decide) (by decide)
    (by decide) (by decide)
  refine ⟨_,((Reads.guard false ((reads_bytesAt 0 8).map _)).bind fun ok => Reads.guard none
    ((reads_byteAt 5).bind fun data => (reads_byteAt 4).bind fun cls =>
      (h64 (data = 1)).ite (h32 (data = 1)))).congr (iff_of_true ?_ trivial) rfl⟩
  by_cases hsm : f.size < 16
  · simp [hsm]
  · have hby : ∀ off < 16, off % 2^64 < f.size := fun off hoff => by omega
    exact ⟨fun _ => has_of_le (by omega),fun _ => ⟨hby 5 (by decide),hby 4 (by decide),by simp⟩⟩

variable {name : List UInt8} {i : ℕ} {kmallocOk : Bool}

section Sections

variable (info : ElfInfo)

/-- The header of section `i`. -/
def sectionAt (f : File) (i : ℕ) : ElfSection :=
  sectionOf (f.fields info.isLe (info.shdr.offset info.isLe f i) info.shdr.widths)

/-- Section `i` passes the test against the size. -/
def SectionAccepted (f : File) (i : ℕ) : Prop := info.shdr.Accepts info.isLe f i

/-- What `elf_get_section` reads of section `i` lies in the file. -/
def SectionFits (f : File) (i : ℕ) : Prop := info.shdr.Fits info.isLe f i

instance (f : File) (i : ℕ) : Decidable (SectionAccepted info f i) :=
  inferInstanceAs (Decidable (_ ≤ _))

lemma reads_elfGetSection (i : ℕ) : f.Reads (fun m => elfGetSection m f.size info i)
    (i < info.eShnum → SectionFits info f i)
    (if i < info.eShnum ∧ SectionAccepted info f i then some (sectionAt info f i) else none) := by
  refine ((reads_readEntry ..).map _).congr ?_ ?_
  · simp only [Int.natCast_nonneg,Nat.cast_lt,Int.toNat_natCast,true_implies]
    rfl
  · simp only [Int.natCast_nonneg,Nat.cast_lt,Int.toNat_natCast,true_and]
    exact apply_ite (Option.map sectionOf) _ _ _

/-- The names are set: there is a section of names and it passes the test against the size,
which it also does where its end wraps at 2^64. -/
def Labelled (f : File) : Prop :=
  info.eShstrndx ≠ 0 ∧ info.eShstrndx < info.eShnum ∧
    ((sectionAt info f info.eShstrndx).shOffset+(sectionAt info f info.eShstrndx).shSize) % 2^64 ≤
      f.size

instance (f : File) : Decidable (Labelled info f) := inferInstanceAs (Decidable (_ ∧ _ ∧ _))

/-- Where the name of section `i` starts, if it has one in the image. -/
def nameOff (f : File) (i : ℕ) : Option ℕ :=
  if (sectionAt info f i).shName < (sectionAt info f info.eShstrndx).shSize then
    some (((sectionAt info f info.eShstrndx).shOffset+(sectionAt info f i).shName) % 2^64)
  else none

/-- Section `i` has the name. -/
def HasName (f : File) (name : List UInt8) (i : ℕ) : Prop :=
  match nameOff info f i with
  | some off => Spells f off name
  | none => name.headD 0 = 0

instance (f : File) (name : List UInt8) (i : ℕ) : Decidable (HasName info f name i) :=
  match h : nameOff info f i with
  | some off => decidable_of_iff (Spells f off name) (by rw [HasName,h])
  | none => decidable_of_iff (name.headD 0 = 0) (by rw [HasName,h])

/-- All sections pass the test against the size. -/
def AllAccepted (f : File) : Prop := ∀ i < info.eShnum, SectionAccepted info f i

instance (f : File) : Decidable (AllAccepted info f) := inferInstanceAs (Decidable (∀ i < _, _))

/-- What a search for a section reads lies in the file: the headers up to the first that fails
the test; and if none does, the names up to the one that is found, as far as they are
compared. -/
def SearchFits (f : File) (name : List UInt8) : Prop :=
  (∀ i < info.eShnum, (∀ j < i, SectionAccepted info f j) → SectionFits info f i) ∧
    (AllAccepted info f → Labelled info f → ∀ i < info.eShnum,
      (∀ j < i, ¬ HasName info f name j) → ∀ off ∈ nameOff info f i, Decided f off name)

/-- The headers with their names. -/
def labelledSection (f : File) (i : ℕ) : ElfSection :=
  { sectionAt info f i with
    shNameStr := if Labelled info f then (nameOff info f i).elim .empty .image else .null }

lemma reads_buildShNameStrtab (arr : List ElfSection) : ∃ c r,
    f.Reads (fun m => buildShNameStrtab m f.size info arr) c r ∧
    ((∀ i < info.eShnum, SectionFits info f i) → c) ∧
    (AllAccepted info f → ∀ l : List ℕ, arr = l.map (sectionAt info f) →
      r.2 = l.map (labelledSection info f)) := by
  refine ⟨_,_,.guard _ ((reads_elfGetSection info _).map _),fun hft _ => hft _,?_⟩
  rintro hall l rfl
  by_cases hlb : Labelled info f
  · have hndx : ¬ (info.eShstrndx = 0 ∨ info.eShnum ≤ info.eShstrndx) :=
      not_or.mpr ⟨hlb.1,Nat.not_le.mpr hlb.2.1⟩
    rw [if_neg hndx,if_pos ⟨hlb.2.1,hall _ hlb.2.1⟩]
    dsimp only
    rw [if_neg (Nat.not_lt.mpr hlb.2.2),List.map_map]
    refine List.map_congr_left fun i _ => ?_
    rw [Function.comp_apply,labelledSection,if_pos hlb,nameOff]
    split <;> rfl
  · have hsm : labelledSection info f = sectionAt info f := by
      funext i
      rw [labelledSection,if_neg hlb]
      rfl
    rw [hsm]
    by_cases hndx : info.eShstrndx = 0 ∨ info.eShnum ≤ info.eShstrndx
    · rw [if_pos hndx]
    · rw [if_neg hndx,if_pos ⟨by omega,hall _ (by omega)⟩]
      dsimp only
      rw [if_pos (Nat.lt_of_not_le fun hle => hlb ⟨by omega,by omega,hle⟩)]

/-- What the comparison of a section's name gives. -/
def sameName (f : File) (name : List UInt8) : NamePtr → Bool
  | .null => false
  | .image off => decide (Spells f off name)
  | .empty => decide (name.headD 0 = 0)

lemma reads_named (arr : List ElfSection) (name : List UInt8) (i : ℕ) : f.Reads (named arr name i)
    (∀ s ∈ arr[i]?, ∀ off, s.shNameStr = .image off → Decided f off name)
    (arr[i]?.filter fun s => sameName f name s.shNameStr) := by
  unfold named
  cases arr[i]? with
  | none => exact (Reads.pure none).congr (by simp) rfl
  | some s =>
    have hnm : f.Reads (fun m => nameIs m name s)
        (∀ off, s.shNameStr = .image off → Decided f off name) (sameName f name s.shNameStr) := by
      unfold nameIs
      cases s.shNameStr with
      | null => exact (Reads.pure false).congr (by simp) rfl
      | image off =>
        obtain ⟨c,hc,hsp⟩ := reads_harlinCompare (f := f) off name
        exact (hc.map _).congr (by simp) (decide_eq_decide.mpr hsp.symm)
      | empty => exact (Reads.pure _).congr (by simp) rfl
    exact (hnm.map _).congr (by simp) rfl

/-- The headers with their names, as the search has them. -/
def sections (f : File) : List ElfSection :=
  (List.range' 0 info.eShnum).map (labelledSection info f)

lemma sections_get (i : ℕ) : (sections info f)[i]? =
    if i < info.eShnum then some (labelledSection info f i) else none := by
  rw [sections,List.getElem?_map]
  by_cases h : i < info.eShnum
  · rw [List.getElem?_range' h,if_pos h]
    simp
  · rw [List.getElem?_eq_none (by simpa using h),if_neg h]
    rfl

/-- Section `i` if the search finds it there. -/
def found (f : File) (name : List UInt8) (i : ℕ) : Option ElfSection :=
  if i < info.eShnum ∧ Labelled info f ∧ HasName info f name i then some (labelledSection info f i)
  else none

lemma reads_found (name : List UInt8) (i : ℕ) : f.Reads (named (sections info f) name i)
    (i < info.eShnum → Labelled info f → ∀ off ∈ nameOff info f i, Decided f off name)
    (found info f name i) := by
  refine (reads_named _ name i).congr ?_ ?_
  all_goals
    rw [sections_get]
    by_cases hi : i < info.eShnum
    · by_cases hlb : Labelled info f
      · cases hoff : nameOff info f i <;>
          simp [found,hi,hlb,labelledSection,hoff,HasName,sameName,Option.filter]
      · simp [found,hi,hlb,labelledSection,sameName]
    · simp [found,hi]

lemma found_eq_none (hi : i < info.eShnum) (hlb : Labelled info f) :
    found info f name i = none ↔ ¬ HasName info f name i := by
  rw [found]
  split
  · rename_i h
    exact iff_of_false (Option.some_ne_none _) fun hnot => hnot h.2.2
  · rename_i h
    exact iff_of_true rfl fun hnm => h ⟨hi,hlb,hnm⟩

lemma reads_collect :
    f.Reads (fun m => collect (fun i m => elfGetSection m f.size info (i : ℕ)) m info.eShnum 0)
      (∀ i < info.eShnum, (∀ j < i, SectionAccepted info f j) → SectionFits info f i)
      (if AllAccepted info f then some ((List.range' 0 info.eShnum).map (sectionAt info f))
        else none) := by
  have hvl : ∀ i < info.eShnum, ((if i < info.eShnum ∧ SectionAccepted info f i then
      some (sectionAt info f i) else none) ≠ none ↔ SectionAccepted info f i) := by
    intro i hi
    simp [hi]
  refine (Reads.collect (reads_elfGetSection info) _ 0).congr ?_ ?_
  · simp only [Nat.zero_add]
    refine forall₂_congr fun i hi => imp_congr ?_ (forall_prop_of_true hi)
    exact forall₂_congr fun j hj => hvl j (hj.trans hi)
  simp only [Nat.zero_add]
  rw [if_congr (forall₂_congr hvl) rfl rfl]
  refine if_ctx_congr Iff.rfl (fun hall => ?_) fun _ => rfl
  rw [← List.filterMap_eq_map]
  refine congrArg some (List.filterMap_congr fun i hi => ?_)
  have hi : i < info.eShnum := by simpa using hi
  rw [if_pos ⟨hi,hall i hi⟩]
  rfl

/-- What the search for a section gives. -/
def sought (f : File) (name : List UInt8) (kmallocOk : Bool) : Option ElfSection :=
  if info.eShnum = 0 ∨ kmallocOk = false then none else if AllAccepted info f then
    (List.range' 0 info.eShnum).findSome? (found info f name) else none

lemma reads_elfFindSection (name : List UInt8) (kmallocOk : Bool) :
    f.Reads (fun m => elfFindSection m f.size info name kmallocOk)
      (info.eShnum ≠ 0 → kmallocOk = true → SearchFits info f name)
      (sought info f name kmallocOk) := by
  have hsc : ∀ arr, ∃ c v, f.Reads (fun m => scan (named arr name) m info.eShnum 0) c v :=
    fun arr => ⟨_,_,Reads.scan (reads_named arr name) _ 0⟩
  have hsm : ∀ tmp, ∃ (c : Prop) (v : Option ElfSection),
      f.Reads (fun m => (buildShNameStrtab m f.size info tmp).bind
        fun r => scan (named r.2 name) m info.eShnum 0) c v := by
    intro tmp
    obtain ⟨c,r,hr,-⟩ := reads_buildShNameStrtab (f := f) info tmp
    obtain ⟨c',v,hv⟩ := hsc r.2
    exact ⟨_,_,hr.bind_at (fun r => hsc r.2) hv⟩
  have hcl := reads_collect (f := f) info
  by_cases hall : AllAccepted info f
  · obtain ⟨c,r,hr,hft,hlb⟩ :=
      reads_buildShNameStrtab (f := f) info ((List.range' 0 info.eShnum).map (sectionAt info f))
    have hfn := Reads.scan (reads_found (f := f) info name) info.eShnum 0
    rw [sections,← hlb hall _ rfl] at hfn
    rw [if_pos hall] at hcl
    refine (Reads.guard none (hcl.bind_at ?_ (hr.bind_at (fun r => hsc r.2) hfn))).congr ?_
      (by rw [sought,if_pos hall])
    · exact fun r => r.casesOn ⟨_,_,.pure none⟩ hsm
    simp only [Nat.zero_add,not_or,Bool.not_eq_false,and_imp,SearchFits]
    refine imp_congr_right fun _ => imp_congr_right fun _ => and_congr_right fun hall' => ?_
    rw [and_iff_right (hft fun i hi => hall' i hi fun j hj => hall j (hj.trans hi))]
    constructor
    · intro h _ hlb i hi hbf
      exact h i hi (fun j hj => (found_eq_none info (hj.trans hi) hlb).mpr (hbf j hj)) hi hlb
    · intro h i hi hbf _ hlb
      exact h hall hlb i hi fun j hj =>
        (found_eq_none info (hj.trans hi) hlb).mp (hbf j hj)
  · rw [if_neg hall] at hcl
    refine (Reads.guard none (hcl.bind_at ?_ (.pure none))).congr ?_ (by rw [sought,if_neg hall])
    · exact fun r => r.casesOn ⟨_,_,.pure none⟩ hsm
    simp [SearchFits,hall]

/-- The search for a section ends with section `i`. -/
structure FoundAt (f : File) (name : List UInt8) (kmallocOk : Bool) (i : ℕ) : Prop where
  room : kmallocOk = true
  accepted : AllAccepted info f
  labelled : Labelled info f
  inside : i < info.eShnum
  here : HasName info f name i
  first : ∀ j < i, ¬ HasName info f name j

lemma FoundAt.found (h : FoundAt info f name kmallocOk i) :
    found info f name i = some (labelledSection info f i) :=
  if_pos ⟨h.inside,h.labelled,h.here⟩

lemma sought_cases (name : List UInt8) (kmallocOk : Bool) :
    (∃ i, FoundAt info f name kmallocOk i ∧
      sought info f name kmallocOk = some (labelledSection info f i)) ∨
    (∀ i, ¬ FoundAt info f name kmallocOk i) ∧ sought info f name kmallocOk = none := by
  by_cases hst : info.eShnum = 0 ∨ kmallocOk = false
  · refine .inr ⟨fun i h => ?_,if_pos hst⟩
    have := h.inside
    have := h.room
    grind
  rw [sought,if_neg hst]
  by_cases hall : AllAccepted info f
  · rw [if_pos hall]
    cases hfi : (List.range' 0 info.eShnum).findSome? (found info f name) with
    | none =>
      refine .inr ⟨fun i h => ?_,rfl⟩
      have hno := List.findSome?_eq_none_iff.mp hfi i (by simpa using h.inside)
      rw [h.found] at hno
      cases hno
    | some sec =>
      obtain ⟨before,i,after,hsp,hi,hbf⟩ := List.findSome?_eq_some_iff.mp hfi
      obtain ⟨k,hk,rfl,haf⟩ := List.range'_eq_append_iff.mp hsp
      obtain rfl : i = k := by
        have hhd := congrArg List.head? haf
        rw [List.head?_cons,List.head?_range'] at hhd
        split_ifs at hhd
        simpa using hhd
      rw [found] at hi
      split_ifs at hi with hfn
      obtain rfl := Option.some.inj hi
      refine .inl ⟨i,⟨by simpa using not_or.mp hst |>.2,hall,hfn.2.1,hfn.1,hfn.2.2,?_⟩,rfl⟩
      intro j hj
      rw [← found_eq_none info (hj.trans hfn.1) hfn.2.1]
      exact hbf j (by simpa using hj)
  · exact .inr ⟨fun i h => hall h.accepted,if_neg hall⟩

end Sections

section Symbols

variable (symtab strtab : ElfSection) (name : List UInt8)

/-- What `elf_symbol_name` reads lies in the file. -/
def SymbolNameFits (f : File) (symIndex outMax : ℤ) : Prop :=
  0 < outMax → symtab.shEntsize ≠ 0 →
    (symbolOff symtab (symIndex % 2^64).toNat+4) % 2^64 ≤ f.size →
      f.Has (symbolOff symtab (symIndex % 2^64).toNat) 4 ∧
      (f.uint 4 (symbolOff symtab (symIndex % 2^64).toNat) true < strtab.shSize →
        Ended f (strtab.shOffset+f.uint 4 (symbolOff symtab (symIndex % 2^64).toNat) true)
          (outMax.toNat-1))

lemma reads_elfSymbolName (symIndex outMax : ℤ) :
    ∃ r, f.Reads (fun m => elfSymbolName m f.size symtab strtab symIndex outMax)
      (SymbolNameFits symtab strtab f symIndex outMax) r := by
  choose s hs using fun off => reads_copyName (f := f) off (outMax.toNat-1)
  refine ⟨_,(Reads.guard none (Reads.guard none ((reads_readUint ..).bind fun st =>
    Reads.guard none ((hs _).map _)))).congr ?_ rfl⟩
  simp [SymbolNameFits]

/-- Where the name of symbol `i` starts, if the table of names has it. -/
def symbolNameOff (f : File) (i : ℕ) : Option ℕ :=
  if f.uint 4 (symbolOff symtab i) true < strtab.shSize then
    some (strtab.shOffset+f.uint 4 (symbolOff symtab i) true)
  else none

/-- Symbol `i` has the name. -/
def SymbolHasName (f : File) (i : ℕ) : Prop :=
  ∃ off ∈ symbolNameOff symtab strtab f i, Spells f off name

/-- What a search for a symbol reads lies in the file: of each symbol up to the one that is found
its first field and its name, as far as that is compared, and the symbol that is found, as
far as the caller wants it. -/
def SymbolsFit (f : File) (width : ℕ) : Prop :=
  ∀ k < symtab.shSize / symtab.shEntsize, (∀ j < k, ¬ SymbolHasName symtab strtab name f j) →
    f.Has (symbolOff symtab k) 4 ∧ ∀ off ∈ symbolNameOff symtab strtab f k, Decided f off name ∧
      (Spells f off name → f.Has (symbolOff symtab k) width)

instance (f : File) (i : ℕ) : Decidable (SymbolHasName symtab strtab name f i) :=
  match h : symbolNameOff symtab strtab f i with
  | some off => decidable_of_iff (Spells f off name) (by simp [SymbolHasName,h])
  | none => isFalse (by simp [SymbolHasName,h])

lemma reads_symbolNamed (width i : ℕ) : f.Reads (symbolNamed symtab strtab name width i)
    (f.Has (symbolOff symtab i) 4 ∧ ∀ off ∈ symbolNameOff symtab strtab f i, Decided f off name ∧
      (Spells f off name → f.Has (symbolOff symtab i) width))
    (if SymbolHasName symtab strtab name f i then some (f.slice (symbolOff symtab i) width)
      else none) := by
  choose c hc hsp using fun off => reads_harlinCompare (f := f) off name
  refine ((reads_readUint ..).bind fun st => Reads.guard none ((hc _).bind fun c =>
    ((reads_bytesAt ..).map some).ite (.pure none))).congr ?_ ?_
  all_goals
    by_cases hlr : strtab.shSize ≤ f.uint 4 (symbolOff symtab i) true
    · simp [SymbolHasName,symbolNameOff,hlr,Nat.not_lt.mpr hlr]
    · simp [SymbolHasName,symbolNameOff,hlr,Nat.lt_of_not_le hlr,hsp]

lemma reads_symbols (width : ℕ) :
    ∃ v,
      f.Reads
        (fun m => scan (symbolNamed symtab strtab name width) m (symtab.shSize / symtab.shEntsize)
          0) (SymbolsFit symtab strtab name f width) v := by
  refine ⟨_,(Reads.scan (reads_symbolNamed symtab strtab name width) _ 0).congr ?_ rfl⟩
  simp [SymbolsFit]

/-- What a search for a symbol reads lies in the file, from the search for the table on. -/
def SymbolSearchFits (f : File) (info : ElfInfo) (kmallocOk : Bool) (width : ℕ) : Prop :=
  (info.eShnum ≠ 0 → kmallocOk = true → SearchFits info f dotSymtab) ∧
    ∀ i, FoundAt info f dotSymtab kmallocOk i →
      (sectionAt info f i).shLink ≠ 0 → (sectionAt info f i).shLink < info.eShnum →
      (sectionAt info f i).shEntsize ≠ 0 →
      SymbolsFit (sectionAt info f i) (sectionAt info f (sectionAt info f i).shLink) name f width

lemma FoundAt.unique {info : ElfInfo} {name : List UInt8} {j : ℕ}
    (hi : FoundAt info f name kmallocOk i) (hj : FoundAt info f name kmallocOk j) : i = j := by
  rcases Nat.lt_trichotomy i j with hlt | heq | hlt
  · exact (hj.first i hlt hi.here).elim
  · exact heq
  · exact (hi.first j hlt hj.here).elim

lemma reads_elfFindSymbol (info : ElfInfo) (kmallocOk out64 out32 : Bool) :
    ∃ r, f.Reads (fun m => elfFindSymbol m f.size info name kmallocOk out64 out32)
      (SymbolSearchFits name f info kmallocOk (symbolWidth info.is64 out64 out32)) r := by
  -- what is read from the table on: its names are in the section that it links to
  refine (reads_elfFindSection info dotSymtab kmallocOk).exists_bind
    (show ∀ r : Option ElfSection, ∃ b, f.Reads _ (∀ symtab ∈ r, symtab.shLink ≠ 0 →
      symtab.shLink < info.eShnum → SectionFits info f symtab.shLink ∧
        (SectionAccepted info f symtab.shLink → symtab.shEntsize ≠ 0 →
          SymbolsFit symtab (sectionAt info f symtab.shLink) name f
            (symbolWidth info.is64 out64 out32))) b from fun r => ?_) ?_
  · cases r with
    | none => exact ⟨none,(Reads.pure none).congr (by simp) rfl⟩
    | some symtab =>
      by_cases hst : symtab.shLink = 0 ∨ info.eShnum ≤ symtab.shLink
      · refine ⟨none,?_⟩
        simp only [if_pos hst]
        refine (Reads.pure none).congr (iff_of_true trivial ?_) rfl
        intro s hs hln hlt
        obtain rfl := Option.some.inj hs
        exact (hst.elim hln (Nat.not_le.mpr hlt)).elim
      simp only [if_neg hst]
      refine (reads_elfGetSection info symtab.shLink).exists_bind
        (show ∀ r : Option ElfSection, ∃ b, f.Reads _ (∀ strtab ∈ r, symtab.shEntsize ≠ 0 →
          SymbolsFit symtab strtab name f (symbolWidth info.is64 out64 out32)) b from
            fun r => ?_) ?_
      · cases r with
        | none => exact ⟨none,(Reads.pure none).congr (by simp) rfl⟩
        | some strtab =>
          obtain ⟨v,hv⟩ :=
            reads_symbols symtab strtab name (f := f) (symbolWidth info.is64 out64 out32)
          exact ⟨_,(Reads.guard none hv).congr (by simp) rfl⟩
      · push Not at hst
        simp [hst]
  · rcases sought_cases (f := f) info dotSymtab kmallocOk with ⟨i,hi,hsg⟩ | ⟨hno,hsg⟩
    · rw [hsg,SymbolSearchFits]
      refine and_congr_right fun hsr => ⟨fun h j hj hln hlt => ?_,?_⟩
      · obtain rfl := hi.unique hj
        exact (h _ rfl hln hlt).2 (hi.accepted _ hlt)
      · rintro h - ⟨⟩ hln hlt
        have hft := (hsr (by omega) hi.room).1 _ hlt fun k hk => hi.accepted k (hk.trans hlt)
        exact ⟨hft,fun _ => h i hi hln hlt⟩
    · rw [hsg,SymbolSearchFits]
      simp [hno]

end Symbols

/-- What the call reads lies in the file. -/
def Query.Fits (f : File) : Query → Prop
  | .parseHeader => True
  | .loadSegment info i => 0 ≤ i → i < info.ePhnum → info.phdr.Fits info.isLe f i.toNat
  | .getSection info i => 0 ≤ i → i < info.eShnum → SectionFits info f i.toNat
  | .findSection info name ok => info.eShnum ≠ 0 → ok = true → SearchFits info f name
  | .symbolName symtab strtab i max => SymbolNameFits symtab strtab f i max
  | .findSymbol info name ok out64 out32 =>
    SymbolSearchFits name f info ok (symbolWidth info.is64 out64 out32)

lemma Query.reads (f : File) (q : Query) : ∃ r, f.Reads (fun m => q.run f.size m) (q.Fits f) r := by
  have hmap : ∀ {α β : Type} {x : Memory → Option α} {c : Prop} (g : α → β), (∃ a, f.Reads x c a) →
      ∃ b, f.Reads (fun m => (x m).map g) c b := fun g ⟨a,ha⟩ => ⟨g a,ha.map g⟩
  cases q with
  | parseHeader => exact hmap _ (reads_elfParseHeader f)
  | loadSegment info i => exact hmap _ (hmap _ ⟨_,reads_readEntry ..⟩)
  | getSection info i => exact hmap _ (hmap _ ⟨_,reads_readEntry ..⟩)
  | findSection info name ok => exact hmap _ ⟨_,reads_elfFindSection info name ok⟩
  | symbolName symtab strtab i max => exact hmap _ (reads_elfSymbolName symtab strtab i max)
  | findSymbol info name ok out64 out32 =>
      exact hmap _ (reads_elfFindSymbol name info ok out64 out32)

/-- A call gives the same outcome on all memories that hold the file if and only if what it reads
lies in the file. -/
theorem outcome_from_file_iff (f : File) (q : Query) :
    DependsOn (· < f.size) f.image (fun m => q.run f.size m) ↔ q.Fits f := by
  obtain ⟨r,hr⟩ := q.reads f
  exact hr.dependsOn_iff

/-- A 64-bit file whose table of sections starts 64 bytes before 2^64. -/
def wrappingFile : File where
  bytes := [0x7F,0x45,0x4C,0x46,2,1,1,0] ++ List.replicate 32 0 ++
    [0xC0,0xFF,0xFF,0xFF,0xFF,0xFF,0xFF,0xFF] ++ List.replicate 10 0 ++ [64,0,1,0,0,0]
  small := by decide

/-- The file with zeros or with ones around it. -/
def around (f : File) (b : UInt8) : Memory := fun a => some (f.bytes.getD a b)

/-- The header of the first section is read from the 64 bytes before the file. -/
theorem section_from_outside :
    ∃ info, elfParseHeader (around wrappingFile 0) 64 = some (some info) ∧
      elfParseHeader (around wrappingFile 1) 64 = some (some info) ∧
      (∀ a < 64, around wrappingFile 0 a = around wrappingFile 1 a) ∧
      (elfGetSection (around wrappingFile 0) 64 info 0).isSome ∧
      elfGetSection (around wrappingFile 0) 64 info 0 ≠
        elfGetSection (around wrappingFile 1) 64 info 0 := by
  refine ⟨⟨true,true,0,0,0,0,1,0,64⟩,?_⟩
  decide

end HarlinKernel.ElfParse
