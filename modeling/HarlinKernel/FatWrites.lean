import Mathlib.Data.List.GetD
import HarlinKernel.FatReopen

/-! Writes as changes of the bytes of a file. `Harlin_Write` starts at the handle's current
cluster, which is not the cluster of its position after a write that ended at the end of a
cluster, nor after a read that ended at the end of the chain. -/
namespace HarlinKernel.Fat32

open TransitionSystem

section Contents

variable {g : Geometry} {b : Buffer} {d : Device} {c i k : ℕ} {l : List ℕ} {f : File}

/-- Cluster `k` of the chain that starts at a cluster. -/
def clusterAt (g : Geometry) (b : Buffer) (c k : ℕ) : ℕ := (cell g b)^[k] c

/-- Byte `i` of a file, read along its chain. -/
def fileByte (g : Geometry) (d : Device) (f : File) (i : ℕ) : UInt8 :=
  clusterBytes g d.byte (clusterAt g d.byte f.startCluster (i/g.clusterSize)) (i % g.clusterSize)

/-- Byte `i` of some clusters. -/
def chainByte (g : Geometry) (b : Buffer) (l : List ℕ) (i : ℕ) : UInt8 :=
  clusterBytes g b (l.getD (i/g.clusterSize) 0) (i % g.clusterSize)

lemma Geometry.Sound.clusterSize_pos (hg : g.Sound) : 0 < g.clusterSize := by
  have hpos := hg.cluster_pos
  rw [Geometry.clusterSize]
  omega

lemma getD_mem (hk : k < l.length) : l.getD k 0 ∈ l := by
  rw [List.getD_eq_getElem _ _ hk]
  exact List.getElem_mem hk

lemma FatChain.getD_next (hg : g.Sound) {fat : ℕ → ℕ} (h : FatChain g fat c l)
    (hk : k+1 < l.length) : fat (l.getD k 0) = l.getD (k+1) 0 := by
  induction k generalizing c l with
  | zero =>
    obtain _ | ⟨x,_ | ⟨y,l⟩⟩ := l
    · simp at hk
    · simp at hk
    · exact h.next hg
  | succ k ih =>
    obtain _ | ⟨x,l⟩ := l
    · simp at hk
    · exact ih h.tail (by simpa using hk)

lemma FatChain.getD_zero {fat : ℕ → ℕ} (h : FatChain g fat c l) (hne : l ≠ []) :
    l.getD 0 0 = c := by
  obtain ⟨x,l,rfl⟩ := List.exists_cons_of_ne_nil hne
  exact h.head.symm

lemma clusterAt_chain (hg : g.Sound) (h : FatChain g (cell g b) c l) (hk : k < l.length) :
    clusterAt g b c k = l.getD k 0 := by
  induction k with
  | zero => exact (h.getD_zero (List.ne_nil_of_length_pos hk)).symm
  | succ k ih =>
    rw [clusterAt,Function.iterate_succ_apply',← clusterAt,ih (by omega),h.getD_next hg hk]

lemma fileByte_chain (hg : g.Sound) (h : FatChain g (cell g d.byte) f.startCluster l)
    (hi : i < l.length*g.clusterSize) : fileByte g d f i = chainByte g d.byte l i := by
  have hk : i/g.clusterSize < l.length := (Nat.div_lt_iff_lt_mul hg.clusterSize_pos).mpr hi
  rw [fileByte,chainByte,clusterAt_chain hg h hk]

lemma chainByte_stored (hg : g.Sound) {pos chunk : ℕ} {buf src : Buffer}
    (h : FatChain g (cell g d.byte) c l) (hpos : pos/g.clusterSize < l.length)
    (hch : pos % g.clusterSize+chunk ≤ g.clusterSize)
    (hbuf : chunk < g.clusterSize → buf = clusterBytes g d.byte (l.getD (pos/g.clusterSize) 0))
    (hi : i < l.length*g.clusterSize) :
    chainByte g (stored g d (l.getD (pos/g.clusterSize) 0)
      (copyBytes buf (pos % g.clusterSize) src chunk)).byte l i =
      copyBytes (chainByte g d.byte l) pos src chunk i := by
  have hsz := hg.clusterSize_pos
  have hk : i/g.clusterSize < l.length := (Nat.div_lt_iff_lt_mul hsz).mpr hi
  have hlt : i % g.clusterSize < g.clusterSize := Nat.mod_lt _ hsz
  have hi_eq := Nat.div_add_mod i g.clusterSize
  have hpos_eq := Nat.div_add_mod pos g.clusterSize
  rw [chainByte]
  by_cases hsm : i/g.clusterSize = pos/g.clusterSize
  · rw [hsm] at hi_eq ⊢
    rw [stored_self hlt]
    simp only [copyBytes]
    by_cases hin : pos % g.clusterSize ≤ i % g.clusterSize ∧
        i % g.clusterSize < pos % g.clusterSize+chunk
    · rw [if_pos hin,if_pos (by omega)]
      congr 1
      omega
    · rw [if_neg hin,if_neg (by omega),hbuf (by omega),chainByte,hsm]
  · have hne : l.getD (i/g.clusterSize) 0 ≠ l.getD (pos/g.clusterSize) 0 := by
      rw [List.getD_eq_getElem _ _ hk,List.getD_eq_getElem _ _ hpos]
      exact fun heq => hsm ((h.nodup.getElem_inj_iff).mp heq)
    rw [stored_of_ne hg (h.valid _ (getD_mem hpos)) (h.valid _ (getD_mem hk)) hne hlt]
    have hout : ¬ (pos ≤ i ∧ i < pos+chunk) := by
      rintro ⟨hle,hlt'⟩
      rcases Nat.lt_or_gt_of_ne hsm with hls | hmr
      · have hmul := Nat.mul_le_mul_left g.clusterSize (Nat.succ_le_of_lt hls)
        rw [Nat.mul_succ] at hmul
        omega
      · have hmul := Nat.mul_le_mul_left g.clusterSize (Nat.succ_le_of_lt hmr)
        rw [Nat.mul_succ] at hmul
        omega
    simp only [copyBytes,if_neg hout]
    rfl

lemma chainByte_fatOnly (hg : g.Sound) {e : Device} (h : FatOnly g d e) {new : List ℕ}
    (hl : ∀ x ∈ l, g.Valid x) (hi : i < l.length*g.clusterSize) :
    chainByte g e.byte (l ++ new) i = chainByte g d.byte l i := by
  have hk : i/g.clusterSize < l.length := (Nat.div_lt_iff_lt_mul hg.clusterSize_pos).mpr hi
  rw [chainByte,chainByte,List.getD_append _ _ _ _ hk]
  exact h.clusterBytes hg (hl _ (getD_mem hk)) _

lemma writeFileLoop_round (hg : g.Sound) (fuel : ℕ) {n : ℕ} (src : Buffer) (hd : d.Reliable)
    (h : FatChain g (cell g d.byte) c l) (hn : 0 < n) (hlt : f.position+n < 2^32)
    (hk : f.position/g.clusterSize < l.length)
    (hcr : f.currentCluster = l.getD (f.position/g.clusterSize) 0) :
    let chunk := min (g.clusterSize-f.position % g.clusterSize) n
    ∃ e, e.Reliable ∧ DataOnly g d e ∧
      (∀ i < l.length*g.clusterSize,
        chainByte g e.byte l i = copyBytes (chainByte g d.byte l) f.position src chunk i) ∧
      writeFileLoop g (fuel+1) d f src n =
        if 0 < n-chunk then
          writeFileLoop g fuel (e.tick 1)
            { f with position := f.position+chunk,currentCluster := cell g e.byte f.currentCluster }
            (fun i => src (i+chunk)) (n-chunk)
        else
          writeFileLoop g fuel e { f with position := f.position+chunk } (fun i => src (i+chunk))
            (n-chunk) := by
  intro chunk
  have hch : chunk = min (g.clusterSize-f.position % g.clusterSize) n := rfl
  have hsz := hg.clusterSize_pos
  have hmod : f.position % g.clusterSize < g.clusterSize := Nat.mod_lt _ hsz
  have hvl := h.valid _ (getD_mem hk)
  rw [← hcr] at hvl
  have heoc := hg.lt_eoc hvl.2
  obtain ⟨buf,k,hrd,hbuf⟩ : ∃ buf k, (if chunk < g.clusterSize then
      readCluster g d f.currentCluster else (some fun _ => 0,d)) = (some buf,d.tick k) ∧
      (chunk < g.clusterSize → buf = clusterBytes g d.byte f.currentCluster) := by
    split_ifs with hpr
    · exact ⟨_,_,readCluster_ok hd _,fun _ => rfl⟩
    · exact ⟨_,0,rfl,fun hbad => absurd hbad hpr⟩
  obtain ⟨e,he⟩ : ∃ e, e = stored g (d.tick k) f.currentCluster
    (copyBytes buf (f.position % g.clusterSize) src chunk) := ⟨_,rfl⟩
  have hrl : e.Reliable := by
    rw [he]
    exact (hd.tick k).stored _ _
  refine ⟨e,hrl,?_,?_,?_⟩
  · rw [he]
    exact ((DataOnly.refl d).tick k).trans (stored_dataOnly hg (hd.tick k) hvl _)
  · intro i hi
    rw [he,hcr]
    rw [hcr] at hbuf
    exact chainByte_stored (d := d.tick k) hg h hk (by omega) hbuf hi
  · have hpos : (f.position+chunk) % 2^32 = f.position+chunk := Nat.mod_eq_of_lt (by omega)
    rw [writeFileLoop,if_pos ⟨hn,heoc⟩]
    simp only [← hch,hrd]
    rw [writeCluster_ok (hd.tick k)]
    simp only [if_true]
    rw [← he,nextCluster_ok hg.fits hrl.fatServed hvl.2,hpos]

lemma writeFileLoop_writes (hg : g.Sound) {fuel n : ℕ} (src : Buffer) (hfl : n ≤ fuel)
    (hd : d.Reliable) (h : FatChain g (cell g d.byte) c l)
    (hend : f.position+n ≤ l.length*g.clusterSize) (hlt : f.position+n < 2^32)
    (hcr : 0 < n → f.currentCluster = l.getD (f.position/g.clusterSize) 0) :
    ∃ e f', writeFileLoop g fuel d f src n = (true,0,e,f') ∧ f'.position = f.position+n ∧
      f'.ramfs = f.ramfs ∧
      ∀ i < l.length*g.clusterSize,
        chainByte g e.byte l i = copyBytes (chainByte g d.byte l) f.position src n i := by
  induction fuel generalizing d f src n with
  | zero =>
    obtain rfl := Nat.le_zero.mp hfl
    exact ⟨d,f,rfl,rfl,rfl,fun i _ => (if_neg (by omega)).symm⟩
  | succ fuel ih =>
    by_cases hzr : n = 0
    · subst hzr
      refine ⟨d,f,?_,rfl,rfl,fun i _ => (if_neg (by omega)).symm⟩
      rw [writeFileLoop,if_neg (by omega)]
    have hsz := hg.clusterSize_pos
    have hcur := hcr (by omega)
    have hk : f.position/g.clusterSize < l.length := (Nat.div_lt_iff_lt_mul hsz).mpr (by omega)
    have hmod : f.position % g.clusterSize < g.clusterSize := Nat.mod_lt _ hsz
    have hpos_eq := Nat.div_add_mod f.position g.clusterSize
    obtain ⟨e,hrl,hdt,hby,hrn⟩ :=
      writeFileLoop_round hg fuel src hd h (by omega) hlt hk hcur
    obtain ⟨chunk,hcn⟩ : ∃ m, m = min (g.clusterSize-f.position % g.clusterSize) n := ⟨_,rfl⟩
    rw [← hcn] at hby hrn
    have hch : FatChain g (cell g e.byte) c l :=
      h.congr fun x hx => hdt.cell hg (h.valid x hx).2
    -- the bytes of this round and of the others
    have hjn : ∀ b', (∀ i < l.length*g.clusterSize, chainByte g b' l i =
        copyBytes (chainByte g e.byte l) (f.position+chunk) (fun i => src (i+chunk)) (n-chunk) i) →
        ∀ i < l.length*g.clusterSize,
          chainByte g b' l i = copyBytes (chainByte g d.byte l) f.position src n i := by
      intro b' hb' i hi
      have hap : copyBytes (copyBytes (chainByte g d.byte l) f.position src chunk)
          (f.position+chunk) (fun i => src (i+chunk)) (n-chunk) =
          copyBytes (chainByte g d.byte l) f.position src (chunk+(n-chunk)) := copyBytes_append
      rw [show chunk+(n-chunk) = n by omega] at hap
      have hfr := hby i hi
      rw [hb' i hi,← hap]
      simp only [copyBytes] at hfr ⊢
      rw [hfr]
    rw [hrn]
    split_ifs with hmr
    · have hfu : f.position+chunk = g.clusterSize*(f.position/g.clusterSize+1) := by
        rw [Nat.mul_succ]
        omega
      have hdiv : (f.position+chunk)/g.clusterSize = f.position/g.clusterSize+1 := by
        rw [hfu,Nat.mul_div_cancel_left _ hsz]
      have hk' : f.position/g.clusterSize+1 < l.length := by
        rw [← hdiv]
        exact (Nat.div_lt_iff_lt_mul hsz).mpr (by omega)
      have hnx : cell g e.byte f.currentCluster = l.getD ((f.position+chunk)/g.clusterSize) 0 := by
        rw [hdiv,hcur]
        exact hch.getD_next hg hk'
      obtain ⟨e',f',hrun,hps,hrm,hall⟩ := @ih (e.tick 1) { f with
          position := f.position+chunk
          currentCluster := cell g e.byte f.currentCluster } (n-chunk) (fun i => src (i+chunk))
        (by omega) (hrl.tick 1) hch (by dsimp only; omega) (by dsimp only; omega)
        fun _ => hnx
      exact ⟨e',f',hrun,by rw [hps]; dsimp only; omega,hrm,hjn e'.byte hall⟩
    · obtain ⟨e',f',hrun,hps,hrm,hall⟩ := @ih e { f with
          position := f.position+chunk } (n-chunk) (fun i => src (i+chunk)) (by omega)
        hrl hch (by dsimp only; omega) (by dsimp only; omega) fun hbad => absurd hbad hmr
      exact ⟨e',f',hrun,by rw [hps]; dsimp only; omega,hrm,hjn e'.byte hall⟩

end Contents

section Writes

variable {g : Geometry} {d : Device} {f : File} {l : List ℕ} {n : ℕ}

/-- A handle on a file with the chain `l`, which has room for the size, on a disk without errors.
The directory entry is in a cluster of its own. -/
structure Opened (g : Geometry) (d : Device) (f : File) (l : List ℕ) : Prop where
  reliable : d.Reliable
  empty : l = [] → f.startCluster = 0
  chain : l ≠ [] → FatChain g (cell g d.byte) f.startCluster l
  size_le : f.size ≤ l.length*g.clusterSize
  size_lt : f.size < 2^32
  position_le : f.position ≤ f.size
  current : l ≠ [] → AtChain l f.currentCluster
  dir : f.dirCluster = 0 ∨ g.Valid f.dirCluster ∧ cell g d.byte f.dirCluster ≠ 0 ∧ f.dirCluster ∉ l
  disk : f.ramfs = none

/-- The current cluster is that of the position; the first cluster stands for one that is 0 or
behind the end of the chain. A file without clusters gets at most one. -/
def OnCluster (g : Geometry) (d : Device) (f : File) (n : ℕ) : Prop :=
  n = 0 ∨ if f.startCluster = 0 then f.position+n ≤ g.clusterSize
    else if f.currentCluster = 0 ∨ fat32Eoc ≤ f.currentCluster then f.position < g.clusterSize
    else f.currentCluster = clusterAt g d.byte f.startCluster (f.position/g.clusterSize)

instance (g : Geometry) (d : Device) (f : File) (n : ℕ) : Decidable (OnCluster g d f n) :=
  inferInstanceAs (Decidable (_ ∨ _))

lemma clusterAt_end (hg : g.Sound) {b : Buffer} {c : ℕ} (h : FatChain g (cell g b) c l)
    (hne : l ≠ []) : fat32Eoc ≤ clusterAt g b c l.length := by
  obtain ⟨m,z,rfl⟩ := List.eq_nil_or_concat' l |>.resolve_left hne
  have hls : clusterAt g b c m.length = z := by
    rw [clusterAt_chain hg h (by simp)]
    simp
  rw [List.length_append,List.length_singleton,clusterAt,Function.iterate_succ_apply',← clusterAt,
    hls]
  exact h.concat

lemma Opened.start (h : Opened g d f l) (hne : l ≠ []) :
    f.startCluster ≠ 0 ∧ g.Valid f.startCluster := by
  have hvl := (h.chain hne).valid _ ((h.chain hne).start_mem hne)
  have hpos := hvl.1
  exact ⟨by omega,hvl⟩

lemma Opened.cursor (hg : g.Sound) (h : Opened g d f l) (hne : l ≠ []) (hn : 0 < n)
    (hon : OnCluster g d f n) : f.position/g.clusterSize < l.length ∧
      (cursorReset f).currentCluster = l.getD (f.position/g.clusterSize) 0 := by
  have hch := h.chain hne
  have hon' := hon.resolve_left (by omega)
  rw [if_neg (h.start hne).1] at hon'
  rw [cursorReset]
  split_ifs at hon' ⊢ with hrs
  · rw [Nat.div_eq_of_lt hon']
    exact ⟨List.length_pos_iff.mpr hne,(hch.getD_zero hne).symm⟩
  have hle : f.position/g.clusterSize ≤ l.length := by
    refine Nat.div_le_of_le_mul ?_
    rw [Nat.mul_comm]
    exact h.position_le.trans h.size_le
  have hk : f.position/g.clusterSize < l.length := by
    by_contra hbad
    have hend := clusterAt_end hg hch hne
    rw [show f.position/g.clusterSize = l.length by omega] at hon'
    omega
  exact ⟨hk,hon'.trans (clusterAt_chain hg hch hk)⟩

lemma le_neededClusters (hg : g.Sound) (hlt : f.position+n+g.clusterSize ≤ 2^32) :
    f.position+n ≤ neededClusters g f n*g.clusterSize := by
  have hsz := hg.clusterSize_pos
  rw [neededClusters,Nat.mod_eq_of_lt (by omega)]
  have hdiv := Nat.div_add_mod (f.position+n+g.clusterSize-1) g.clusterSize
  have hmod := Nat.mod_lt (f.position+n+g.clusterSize-1) hsz
  rw [Nat.mul_comm] at hdiv
  omega

/-- What a chain is after an extension for a write: it has room for the bytes, the cursor is in the
cluster of the position, and the bytes of the file are as before. -/
structure Room (g : Geometry) (d : Device) (f : File) (l : List ℕ) (n : ℕ) (e : Device)
    (f' : File) (l' : List ℕ) : Prop where
  opened : Opened g e f' l'
  ne_nil : l' ≠ []
  position : f'.position = f.position
  size : f'.size = f.size
  room : f.position+n ≤ l'.length*g.clusterSize
  cursor : (cursorReset f').currentCluster = l'.getD (f.position/g.clusterSize) 0
  bytes : ∀ i < l.length*g.clusterSize, chainByte g e.byte l' i = chainByte g d.byte l i

lemma ExtendedFile.opened (h : Opened g d f l) {needed : ℕ} {new : List ℕ}
    {x : Bool × Device × File} (hext : ExtendedFile g d f l needed new x) (hne : l ++ new ≠ []) :
    Opened g x.2.1 x.2.2 (l ++ new) := by
  have hgr := hext.grown
  have hst := (hext.chain hne).start_mem hne
  have hsz : f.size ≤ (l ++ new).length*g.clusterSize := by
    refine h.size_le.trans (Nat.mul_le_mul_right _ ?_)
    rw [List.length_append]
    omega
  have hdir : f.dirCluster = 0 ∨ g.Valid f.dirCluster ∧ cell g x.2.1.byte f.dirCluster ≠ 0 ∧
      f.dirCluster ∉ l ++ new := by
    refine h.dir.imp_right fun ⟨hvl,hus,hl⟩ => ?_
    have hnew : f.dirCluster ∉ new := fun hmem => hus (hgr.free _ hmem).2
    refine ⟨hvl,?_,?_⟩
    · rwa [hgr.others _ hvl.2 hnew hl]
    · rw [List.mem_append]
      exact not_or.mpr ⟨hl,hnew⟩
  have hrl := h.reliable.of_ok hgr.only.ok
  rcases hext.file with ⟨-,-,hfl⟩ | ⟨hor,hfl⟩
  · refine ⟨hrl,fun hnil => absurd hnil hne,hext.chain,?_,?_,?_,?_,?_,?_⟩
    all_goals rw [hfl]
    · exact hsz
    · exact h.size_lt
    · exact h.position_le
    · exact fun _ => .inl hst
    · exact hdir
    · exact h.disk
  · refine ⟨hrl,fun hnil => absurd hnil hne,hext.chain,?_,?_,?_,?_,?_,?_⟩
    all_goals rw [hfl]
    · exact hsz
    · exact h.size_lt
    · exact h.position_le
    · have hl : l ≠ [] := hor.elim id fun hnew => by simpa [hnew] using hne
      exact fun _ => (h.current hl).imp_left (List.mem_append_left new)
    · exact hdir
    · exact h.disk

lemma Opened.extend (hg : g.Sound) (h : Opened g d f l) (hn : 0 < n)
    (hlt : f.position+n+g.clusterSize ≤ 2^32)
    (hfr : neededClusters g f n ≤ l.length+(freeClusters g (cell g d.byte)).card)
    (hon : OnCluster g d f n) :
    ∃ e f' l', extendFileClusters g d f (neededClusters g f n) = (true,e,f') ∧
      Room g d f l n e f' l' := by
  have hnd := le_neededClusters hg hlt
  obtain ⟨new,hext⟩ :=
    extendFileClusters_spec hg (neededClusters g f n) h.reliable.fatServed h.empty h.chain
  generalize hx : extendFileClusters g d f (neededClusters g f n) = x at hext
  have hok : x.1 = true := by
    refine (hext.grown.enough (fun y hy => ?_) hext.result).mpr ?_
    · exact (h.chain (List.ne_nil_of_mem hy)).cell_ne_zero hy
    have hpos : 0 < neededClusters g f n := by
      by_contra hzr
      rw [show neededClusters g f n = 0 by omega] at hnd
      omega
    rw [missing]
    split_ifs with hl
    · rw [hl,List.length_nil] at hfr
      omega
    · omega
  obtain ⟨hlen,hne⟩ := hext.ne_nil hok
  refine ⟨x.2.1,x.2.2,l ++ new,Prod.ext hok rfl,hext.opened h hne,hne,?_,?_,?_,?_,?_⟩
  · rcases hext.file with ⟨-,-,hfl⟩ | ⟨-,hfl⟩
    all_goals rw [hfl]
  · rcases hext.file with ⟨-,-,hfl⟩ | ⟨-,hfl⟩
    all_goals rw [hfl]
  · rw [missing] at hlen
    split_ifs at hlen with hl
    · -- the first cluster is counted twice, but one is enough
      have hon' := hon.resolve_left (by omega)
      rw [if_pos (h.empty hl)] at hon'
      refine hon'.trans (Nat.le_mul_of_pos_left _ ?_)
      rw [List.length_append]
      omega
    · refine hnd.trans (Nat.mul_le_mul_right _ ?_)
      rw [List.length_append]
      omega
  · rcases hext.file with ⟨hl,hnew,hfl⟩ | ⟨hor,hfl⟩
    · have hst := (hext.chain hne).getD_zero hne
      have hps : f.position = 0 := by
        have hle := h.position_le.trans h.size_le
        rw [hl] at hle
        simpa using hle
      rw [hps,Nat.zero_div,hst,hfl,cursorReset]
      split_ifs <;> rfl
    · have hl : l ≠ [] := by
        rcases hor with hl | hnew
        · exact hl
        · simpa [hnew] using hne
      obtain ⟨hk,hcr⟩ := h.cursor hg hl hn hon
      rw [hfl,hcr,List.getD_append _ _ _ _ hk]
  · intro i hi
    refine chainByte_fatOnly hg hext.grown.only (fun y hy => ?_) hi
    exact (h.chain (List.ne_nil_of_mem hy)).valid y hy

/-- What a write of `n` bytes does to a file: the bytes from the position on are replaced or
appended, and the position moves behind them. -/
structure Spliced (g : Geometry) (d : Device) (f : File) (l : List ℕ) (src : Buffer) (n : ℕ)
    (e : Device) (f' : File) (l' : List ℕ) : Prop where
  opened : Opened g e f' l'
  position : f'.position = f.position+n
  size : f'.size = max f.size (f.position+n)
  bytes : ∀ i < max f.size (f.position+n),
    chainByte g e.byte l' i = copyBytes (chainByte g d.byte l) f.position src n i

lemma chainByte_updateDirectorySize (hg : g.Sound) (hd : d.Reliable)
    (hdir : f.dirCluster = 0 ∨ g.Valid f.dirCluster ∧ f.dirCluster ∉ l)
    (hl : ∀ x ∈ l, g.Valid x) {i : ℕ} (hi : i < l.length*g.clusterSize) :
    chainByte g (updateDirectorySize g d f).2.byte l i = chainByte g d.byte l i := by
  have hsz := hg.clusterSize_pos
  have hmem : l.getD (i/g.clusterSize) 0 ∈ l := getD_mem ((Nat.div_lt_iff_lt_mul hsz).mpr hi)
  have hne : l.getD (i/g.clusterSize) 0 ≠ f.dirCluster := by
    rcases hdir with hzr | ⟨-,hnot⟩
    · have hpos := (hl _ hmem).1
      omega
    · exact fun heq => hnot (heq ▸ hmem)
  exact updateDirectorySize_elsewhere (l := []) hg hd (hdir.imp_right And.left)
    ⟨hl _ hmem,Nat.mod_lt _ hsz,by simp,fun heq => absurd heq hne⟩

lemma Opened.writeExtended (hg : g.Sound) (h : Opened g d f l) (src : Buffer) (hne : l ≠ [])
    (hrm : f.position+n ≤ l.length*g.clusterSize) (hlt : f.position+n < 2^32)
    (hcr : (cursorReset f).currentCluster = l.getD (f.position/g.clusterSize) 0) (hn : 0 < n) :
    ∃ e f', (∀ fuel orig, writeExtended g fuel d orig f src n = some (some n,e,f')) ∧
      Spliced g d f l src n e f' l := by
  have hch := h.chain hne
  have hsz := hg.clusterSize_pos
  have hps : (cursorReset f).position = f.position := by
    rw [cursorReset]
    split_ifs <;> rfl
  have hra : (cursorReset f).ramfs = f.ramfs := by
    rw [cursorReset]
    split_ifs <;> rfl
  have hk : f.position/g.clusterSize < l.length := (Nat.div_lt_iff_lt_mul hsz).mpr (by omega)
  have hsm := cursorReset_same f
  obtain ⟨hcl,hkp,hat⟩ := writeFileLoop_spec (f := cursorReset f) hg n src n
    h.reliable.fatServed hch (.inl (hcr ▸ getD_mem hk))
  obtain ⟨-,hrl⟩ := writeFileLoop_reliable (g := g) (f := cursorReset f) n src n h.reliable
  obtain ⟨e,f',hlp,hpos,hram,hby⟩ := writeFileLoop_writes (f := cursorReset f) hg src
    (le_refl n) h.reliable hch (by omega) (by omega) (by rw [hps]; exact fun _ => hcr)
  rw [hlp] at hcl hkp hat hrl
  rw [hps] at hpos hby
  obtain ⟨f₁,hf₁⟩ : ∃ f₁ : File, f₁ = { f' with size := max f'.size f'.position } := ⟨_,rfl⟩
  have hst₁ : f₁.startCluster = f.startCluster := by
    rw [hf₁]
    exact hkp.startCluster.trans hsm.startCluster
  have hdir₁ : f₁.dirCluster = f.dirCluster := by
    rw [hf₁]
    exact hkp.dirCluster.trans hsm.dirCluster
  have hsz₁ : f₁.size = max f.size (f.position+n) := by
    rw [hf₁]
    rw [hkp.size,hsm.size,hpos]
  have hpos₁ : f₁.position = f.position+n := by
    rw [hf₁]
    exact hpos
  have hdir : f₁.dirCluster = 0 ∨ g.Valid f₁.dirCluster ∧ f₁.dirCluster ∉ l := by
    rw [hdir₁]
    exact h.dir.imp_right fun hv => ⟨hv.1,hv.2.2⟩
  have hdt : DataOnly g d (updateDirectorySize g e f₁).2 :=
    hcl.data.trans (updateDirectorySize_dataOnly hg (hdir.imp_right And.left))
  refine ⟨(updateDirectorySize g e f₁).2,f₁,fun fuel orig => ?_,⟨?_,?_,?_,?_,?_,?_,?_,?_,?_⟩,
    hpos₁,hsz₁,fun i hi => ?_⟩
  · have htr := updateDirectorySize_reliable (g := g) (f := f₁) hrl
    simp [Fat32.writeExtended,hlp,← hf₁,htr]
  · exact h.reliable.of_ok hdt.ok
  · exact fun hnil => absurd hnil hne
  · intro _
    rw [hst₁]
    exact hch.congr fun x hx => hdt.cell hg (hch.valid x hx).2
  · rw [hsz₁]
    exact max_le h.size_le hrm
  · rw [hsz₁]
    exact max_lt h.size_lt hlt
  · rw [hpos₁,hsz₁]
    exact le_max_right _ _
  · rw [hf₁]
    exact fun _ => hat
  · rw [hdir₁]
    refine h.dir.imp_right fun hv => ⟨hv.1,?_,hv.2.2⟩
    rw [hdt.cell hg hv.1.2]
    exact hv.2.1
  · rw [hf₁]
    exact hram.trans (hra.trans h.disk)
  · have hin : i < l.length*g.clusterSize := lt_of_lt_of_le hi (max_le h.size_le hrm)
    rw [chainByte_updateDirectorySize hg hrl hdir hch.valid hin]
    exact hby i hin

/-- A write that starts in the cluster of its position is a write of the byte array. -/
theorem Opened.write (hg : g.Sound) (h : Opened g d f l) (src : Buffer)
    (hlt : f.position+n+g.clusterSize ≤ 2^32)
    (hfr : neededClusters g f n ≤ l.length+(freeClusters g (cell g d.byte)).card)
    (hon : OnCluster g d f n) :
    ∃ e f' l', (∀ fuel, harlinWrite g fuel d f src n = some (some n,e,f')) ∧
      Spliced g d f l src n e f' l' := by
  have hps := h.position_le
  by_cases hn : n = 0
  · subst hn
    refine ⟨d,f,l,fun fuel => if_pos rfl,h,rfl,by omega,fun i _ => ?_⟩
    exact (if_neg (by omega)).symm
  have hsz := hg.clusterSize_pos
  obtain ⟨d₁,f₁,l',hext,hrm⟩ := h.extend hg (by omega) hlt hfr hon
  have hpos₁ := hrm.position
  have hsz₁ := hrm.size
  obtain ⟨e,f',hwr,hsp⟩ := hrm.opened.writeExtended hg src hrm.ne_nil
    (n := n) (by rw [hpos₁]; exact hrm.room) (by omega) (by rw [hpos₁]; exact hrm.cursor)
    (by omega)
  refine ⟨e,f',l',fun fuel => ?_,hsp.opened,?_,?_,fun i hi => ?_⟩
  · rw [neededClusters] at hext
    simp only [harlinWrite,if_neg hn,hext,if_true,hwr]
  · rw [hsp.position,hpos₁]
  · rw [hsp.size,hpos₁,hsz₁]
  have hby := hsp.bytes i (by rwa [hpos₁,hsz₁])
  rw [hby,hpos₁]
  simp only [copyBytes]
  split_ifs with hin
  · rfl
  · -- a byte that is not written was in the file before
    have hold : i < f.size := by
      rcases lt_max_iff.mp hi with hlt' | hlt'
      · exact hlt'
      · omega
    exact hrm.bytes i (hold.trans_le h.size_le)

lemma readFileLoop_round (len fuel : ℕ) (dst : Buffer) (done : ℕ) (hd : d.Reliable)
    (hgo : 0 < n ∧ f.currentCluster < fat32Eoc) (hlt : f.position+n < 2^32) {m : ℕ}
    (hm : m = min (g.clusterSize-f.position % g.clusterSize) n) :
    ∃ k f' dst', readFileLoop g len (fuel+1) d f dst done n =
        readFileLoop g len fuel (d.tick k) f' dst' (done+m) (n-m) ∧
      f' = { f with
        position := f.position+m
        currentCluster := if (f.position+m) % g.clusterSize = 0 then cell g d.byte f.currentCluster
          else f.currentCluster } ∧
      dst' = copyBytes dst done (fun i =>
        clusterBytes g d.byte f.currentCluster (f.position % g.clusterSize+i)) m := by
  have hpos : (f.position+m) % 2^32 = f.position+m := Nat.mod_eq_of_lt (by omega)
  rw [readFileLoop,if_pos hgo]
  simp only [← hm,readCluster_ok hd,hpos]
  split_ifs
  · rw [nextCluster_cell (hd.tick _) hgo.2,tick_tick]
    exact ⟨_,_,_,rfl,rfl,rfl⟩
  · exact ⟨_,_,_,rfl,rfl,rfl⟩

lemma readFileLoop_spec (hg : g.Sound) {c : ℕ} (len fuel : ℕ) (dst : Buffer) (done : ℕ)
    (hd : d.Reliable) (h : FatChain g (cell g d.byte) c l) (hat : AtChain l f.currentCluster)
    (hlt : f.position+n < 2^32) :
    ∃ k f', (readFileLoop g len fuel d f dst done n).2.2 = (d.tick k,f') ∧ SameFile f f' ∧
      AtChain l f'.currentCluster ∧ f'.position ≤ f.position+n ∧ f'.ramfs = f.ramfs := by
  induction fuel generalizing d f dst done n with
  | zero => exact ⟨0,f,rfl,⟨rfl,rfl,rfl,rfl⟩,hat,by omega,rfl⟩
  | succ fuel ih =>
    by_cases hgo : 0 < n ∧ f.currentCluster < fat32Eoc
    · obtain ⟨m,hm⟩ : ∃ m, m = min (g.clusterSize-f.position % g.clusterSize) n := ⟨_,rfl⟩
      obtain ⟨k,f₁,dst₁,hrn,hf₁,-⟩ := readFileLoop_round len fuel dst done hd hgo hlt hm
      have hat₁ : AtChain l f₁.currentCluster := by
        rw [hf₁]
        dsimp only
        split_ifs
        · exact h.atChain hg (hat.resolve_right (by omega))
        · exact hat
      have hpos : f₁.position = f.position+m := by rw [hf₁]
      obtain ⟨k',f',hrun,hsm,hat',hle,hram⟩ := ih (d := d.tick k) (n := n-m) dst₁ (done+m)
        (hd.tick k) h hat₁ (by omega)
      rw [hrn]
      rw [hf₁] at hsm hram
      exact ⟨k+k',f',by rw [hrun,tick_tick],⟨hsm.1,hsm.2,hsm.3,hsm.4⟩,hat',by omega,hram⟩
    · rw [readFileLoop,if_neg hgo]
      exact ⟨0,f,rfl,⟨rfl,rfl,rfl,rfl⟩,hat,by omega,rfl⟩

lemma Opened.read (hg : g.Sound) (h : Opened g d f l) (dst : Buffer) (hlt : f.position+n < 2^32) :
    Opened g (harlinRead g d f dst n).2.2.1 (harlinRead g d f dst n).2.2.2 l := by
  rw [harlinRead]
  by_cases heof : f.size ≤ f.position
  · rw [if_pos heof]
    exact h
  rw [if_neg heof]
  obtain ⟨m,hm⟩ : ∃ m, m = if f.size < (f.position+n) % 2^32 then f.size-f.position else n :=
    ⟨_,rfl⟩
  have hle : f.position+m ≤ f.size := by
    rw [Nat.mod_eq_of_lt hlt] at hm
    split_ifs at hm <;> omega
  have hsz := h.size_lt
  have hne : l ≠ [] := by
    rintro rfl
    have hbn := h.size_le
    rw [List.length_nil,Nat.zero_mul] at hbn
    omega
  simp only [← hm,h.disk]
  obtain ⟨k,f',hrun,hsm,hat,hpos,hram⟩ := readFileLoop_spec (f := f) (n := m) hg n m dst 0
    h.reliable (h.chain hne) (h.current hne) (by omega)
  rw [hrun]
  change Opened g (d.tick k) f' l
  exact ⟨h.reliable.tick k,fun hnil => absurd hnil hne,
    fun _ => hsm.startCluster ▸ h.chain hne,hsm.size ▸ h.size_le,hsm.size ▸ hsz,
    by rw [hsm.size]; omega,fun _ => hat,hsm.dirCluster ▸ h.dir,hram.trans h.disk⟩

end Writes

section HandleRuns

/-- The disk and a handle on one of its files. -/
structure OpenHandle where
  dev : Device
  file : File

variable {g : Geometry} {s t u v : OpenHandle} {l : List ℕ} {a b : Buffer} {m n : ℕ}

inductive HandleCall
  | write (src : Buffer) (n : ℕ)
  | read (dst : Buffer) (n : ℕ)

/-- A call, with a bound on the rounds of its loops. -/
def handleAct (g : Geometry) (fuel : ℕ) (s : OpenHandle) : HandleCall → Option OpenHandle
  | .write src n => (harlinWrite g fuel s.dev s.file src n).map fun r => ⟨r.2.1,r.2.2⟩
  | .read dst n =>
    let r := harlinRead g s.dev s.file dst n
    some ⟨r.2.2.1,r.2.2.2⟩

/-- The calls that return, for a handle that has just been opened. -/
def handleRuns (g : Geometry) : System OpenHandle HandleCall where
  init s := s.file.position = 0 ∧ s.file.currentCluster = s.file.startCluster ∧
    ∃ l, Opened g s.dev s.file l
  step s a t := ∃ fuel, handleAct g fuel s a = some t

/-- The disk has clusters for a write, and no sum of a position and a length overflows. -/
def Supplied (g : Geometry) (s : OpenHandle) : HandleCall → Prop
  | .write _ n => s.file.position+n+g.clusterSize ≤ 2^32 ∧ ∀ l, Opened g s.dev s.file l →
      neededClusters g s.file n ≤ l.length+(freeClusters g (cell g s.dev.byte)).card
  | .read _ n => s.file.position+n < 2^32

/-- The condition on the cursor of a write. -/
def StartsOnCluster (g : Geometry) (s : OpenHandle) : HandleCall → Prop
  | .write _ n => OnCluster g s.dev s.file n
  | .read _ _ => True

/-- A write of `n` bytes returns `n`, moves the position behind them, and replaces or appends
exactly them in the file. -/
structure Written (g : Geometry) (s : OpenHandle) (src : Buffer) (n : ℕ) (t : OpenHandle) :
    Prop where
  returns : ∀ fuel, harlinWrite g fuel s.dev s.file src n = some (some n,t.dev,t.file)
  position : t.file.position = s.file.position+n
  size : t.file.size = max s.file.size (s.file.position+n)
  bytes : ∀ i < t.file.size,
    fileByte g t.dev t.file i = copyBytes (fileByte g s.dev s.file) s.file.position src n i

/-- The bytes of two buffers, one after the other. -/
def appendBytes (a : Buffer) (n : ℕ) (b : Buffer) : Buffer := fun i =>
  if i < n then a i else b (i-n)

/-- Two states in which a file has the same bytes. -/
def SameBytes (g : Geometry) (s t : OpenHandle) : Prop :=
  s.file.size = t.file.size ∧
    ∀ i < s.file.size, fileByte g s.dev s.file i = fileByte g t.dev t.file i

lemma Opened.fileByte (hg : g.Sound) (h : Opened g s.dev s.file l) {i : ℕ}
    (hi : i < s.file.size) : fileByte g s.dev s.file i = chainByte g s.dev.byte l i := by
  have hlt : i < l.length*g.clusterSize := hi.trans_le h.size_le
  have hne : l ≠ [] := by
    rintro rfl
    simp at hlt
  exact fileByte_chain hg (h.chain hne) hlt

lemma Opened.written (hg : g.Sound) (h : Opened g s.dev s.file l)
    (hs : Supplied g s (.write a n)) (hon : OnCluster g s.dev s.file n) :
    ∃ t, Written g s a n t ∧ ∃ l', Opened g t.dev t.file l' := by
  obtain ⟨e,f',l',hrt,hsp⟩ := h.write hg a hs.1 (hs.2 l h) hon
  refine ⟨⟨e,f'⟩,⟨hrt,hsp.position,hsp.size,fun i hi => ?_⟩,l',hsp.opened⟩
  have hi' : i < max s.file.size (s.file.position+n) := hsp.size ▸ hi
  rw [Opened.fileByte (s := ⟨e,f'⟩) hg hsp.opened hi,hsp.bytes i hi']
  simp only [copyBytes]
  split_ifs with hin
  · rfl
  · have hps := h.position_le
    exact (h.fileByte hg (by omega)).symm

lemma Written.unique (h : Written g s a n t) {fuel : ℕ}
    (hrun : handleAct g fuel s (.write a n) = some u) : u = t := by
  rw [handleAct,h.returns fuel] at hrun
  exact (Option.some.inj hrun).symm

lemma Opened.act (hg : g.Sound) {c : HandleCall} (h : Opened g s.dev s.file l)
    (hs : Supplied g s c) (hon : StartsOnCluster g s c)
    (hst : (handleRuns g).step s c t) : ∃ l', Opened g t.dev t.file l' := by
  obtain ⟨fuel,hact⟩ := hst
  cases c with
  | write src n =>
    obtain ⟨t',hwr,hop⟩ := h.written hg hs hon
    rwa [hwr.unique hact]
  | read dst n =>
    cases hact
    exact ⟨l,h.read hg dst hs⟩

/-- The handle has a chain in every state of a run whose writes start in the cluster of their
position. -/
theorem reach_opened (hg : g.Sound)
    (h : Reach (((handleRuns g).guarded (Supplied g)).guarded (StartsOnCluster g)) s) :
    ∃ l, Opened g s.dev s.file l := by
  refine Reach.invariant (fun s => ∃ l, Opened g s.dev s.file l) ?_ ?_ h
  · rintro s ⟨-,-,hop⟩
    exact hop
  · rintro s c t ⟨l,hl⟩ ⟨⟨hst,hs⟩,hon⟩
    exact hl.act hg hs hon hst

lemma Written.append (h : Written g s a n t) (h' : Written g t b m u)
    (h'' : Written g s (appendBytes a n b) (n+m) v) : SameBytes g u v := by
  have hsz : u.file.size = v.file.size := by
    rw [h'.size,h''.size,h.size,h.position]
    omega
  have hsz' := h'.size
  have hsz'' := h.size
  have hps := h.position
  refine ⟨hsz,fun i hi => ?_⟩
  rw [h'.bytes i hi,h''.bytes i (hsz ▸ hi)]
  simp only [copyBytes,appendBytes,h.position]
  by_cases hsc : s.file.position+n ≤ i ∧ i < s.file.position+n+m
  · rw [if_pos hsc,if_pos (by omega),if_neg (by omega)]
    congr 1
    omega
  · rw [if_neg hsc,h.bytes i (by omega)]
    simp only [copyBytes]
    by_cases hfr : s.file.position ≤ i ∧ i < s.file.position+n
    · rw [if_pos hfr,if_pos (by omega),if_pos (by omega)]
    · rw [if_neg hfr,if_neg (by omega)]

/-- In a run whose writes start in the cluster of their position, each write is one of the byte
array, and two writes in a row store what one of both buffers stores. -/
theorem writes_act_on_bytes (hg : g.Sound)
    (h : Reach (((handleRuns g).guarded (Supplied g)).guarded (StartsOnCluster g)) s) :
    (∀ a n, Supplied g s (.write a n) → StartsOnCluster g s (.write a n) →
      ∃ t, (handleRuns g).step s (.write a n) t ∧ Written g s a n t) ∧
    ∀ a n b m t, Supplied g s (.write a n) → StartsOnCluster g s (.write a n) →
      (handleRuns g).step s (.write a n) t →
      Supplied g t (.write b m) → StartsOnCluster g t (.write b m) →
      Supplied g s (.write (appendBytes a n b) (n+m)) →
      StartsOnCluster g s (.write (appendBytes a n b) (n+m)) →
      ∃ u v, Written g t b m u ∧ Written g s (appendBytes a n b) (n+m) v ∧ SameBytes g u v := by
  obtain ⟨l,hl⟩ := reach_opened hg h
  refine ⟨fun a n hs hon => ?_,fun a n b m t hs hon hst hs' hon' hs'' hon'' => ?_⟩
  · obtain ⟨t,ht,-⟩ := hl.written hg hs hon
    refine ⟨t,⟨0,?_⟩,ht⟩
    rw [handleAct,ht.returns]
    rfl
  · obtain ⟨t',ht,l',hl'⟩ := hl.written hg hs hon
    obtain ⟨fuel,hact⟩ := hst
    obtain rfl := ht.unique hact
    obtain ⟨u,hu,-⟩ := hl'.written hg hs' hon'
    obtain ⟨v,hv,-⟩ := hl.written hg hs'' hon''
    exact ⟨u,v,hu,hv,ht.append hu hv⟩

/-- The clusters 0 to 3 are used, and every command is carried out. -/
def sparseDisk : Device := { worn with
  byte := fun a => if 512 ≤ a ∧ a < 528 then
      (if a % 4 = 0 then 0xF8 else if a % 4 = 3 then 0x0F else 0xFF)
    else 0
  ok := fun _ _ => true }

/-- A handle on an empty file with cluster 2, whose entry is the first one in cluster 3. -/
def emptyHandle : OpenHandle := ⟨sparseDisk,⟨2,2,0,0,3,0,false,none⟩⟩

lemma emptyHandle_opened : Opened smallVolume emptyHandle.dev emptyHandle.file [2] := by
  have htwo : fat32Eoc ≤ cell smallVolume sparseDisk.byte 2 := by decide
  have hth : cell smallVolume sparseDisk.byte 3 ≠ 0 := by decide
  refine ⟨fun _ _ => rfl,by simp,fun _ => ⟨⟨rfl,by decide,if_pos htwo⟩,?_⟩,by decide,by decide,
    by decide,fun _ => .inl (List.mem_singleton.mpr rfl),.inr ⟨by decide,hth,by decide⟩,rfl⟩
  intro x hx
  rw [List.mem_singleton.mp hx]
  decide

lemma supplied_write {src : Buffer} (hlt : s.file.position+n+g.clusterSize ≤ 2^32)
    (hfr : neededClusters g s.file n ≤ (freeClusters g (cell g s.dev.byte)).card) :
    Supplied g s (.write src n) := by
  refine ⟨hlt,fun l _ => ?_⟩
  omega

lemma emptyHandle_reach :
    Reach
      (((handleRuns smallVolume).guarded (Supplied smallVolume)).guarded
        (StartsOnCluster smallVolume)) emptyHandle :=
  ⟨[],.start ⟨rfl,rfl,_,emptyHandle_opened⟩⟩

theorem writes_act_on_bytes_twoWrites : ∃ t u v,
    Written smallVolume emptyHandle (fun _ => 1) 1 t ∧ Written smallVolume t (fun _ => 2) 1 u ∧
    Written smallVolume emptyHandle (appendBytes (fun _ => 1) 1 fun _ => 2) 2 v ∧
    SameBytes smallVolume u v := by
  obtain ⟨hwr,hpr⟩ := writes_act_on_bytes smallVolume_sound emptyHandle_reach
  have hfr : 1 ≤ (freeClusters smallVolume (cell smallVolume emptyHandle.dev.byte)).card := by
    decide +kernel
  have hsp : ∀ src, Supplied smallVolume emptyHandle (.write src 1) := fun _ =>
    supplied_write (by decide) hfr
  have hon : StartsOnCluster smallVolume emptyHandle (.write (fun _ => 1) 1) :=
    .inr (by decide)
  obtain ⟨t,hst,ht⟩ := hwr _ 1 (hsp _) hon
  have hrun : (handleAct smallVolume 0 emptyHandle (.write (fun _ => 1) 1)).map (fun t =>
      decide (1 ≤ (freeClusters smallVolume (cell smallVolume t.dev.byte)).card ∧
        OnCluster smallVolume t.dev t.file 1)) = some true := by
    decide +kernel
  obtain ⟨t',ht',hfc⟩ := Option.map_eq_some_iff.mp hrun
  obtain rfl := ht.unique ht'
  obtain ⟨hfr',hon'⟩ := of_decide_eq_true hfc
  have hps : t'.file.position = 1 := ht.position
  obtain ⟨u,v,hu,hv,hsm⟩ := hpr (fun _ => 1) 1 (fun _ => 2) 1 t' (hsp _) hon hst
    (supplied_write (by rw [hps]; decide) (by rw [neededClusters,hps]; exact hfr'))
    hon' (supplied_write (by decide) hfr) (.inr (by decide))
  exact ⟨t',u,v,ht,hu,hv,hsm⟩

/-- A write of a whole cluster leaves the cursor in it. The next one overwrites its first byte, and
the cluster that was added stays as it was. -/
theorem write_after_full_cluster : ∃ t u,
    (handleRuns smallVolume).init emptyHandle ∧
    Supplied smallVolume emptyHandle (.write (fun _ => 1) 512) ∧
    (handleRuns smallVolume).step emptyHandle (.write (fun _ => 1) 512) t ∧
    Supplied smallVolume t (.write (fun _ => 2) 1) ∧
    (handleRuns smallVolume).step t (.write (fun _ => 2) 1) u ∧
    ¬ StartsOnCluster smallVolume t (.write (fun _ => 2) 1) ∧
    fileByte smallVolume t.dev t.file 0 = 1 ∧ fileByte smallVolume u.dev u.file 0 = 2 ∧
    u.file.position = 513 ∧ fileByte smallVolume u.dev u.file 512 = 0 ∧
    ¬ ∃ v, Written smallVolume t (fun _ => 2) 1 v := by
  have hrun : ((handleAct smallVolume 1 emptyHandle (.write (fun _ => 1) 512)).bind fun t =>
      (handleAct smallVolume 1 t (.write (fun _ => 2) 1)).map fun u =>
        decide (t.file.position = 512 ∧
          2 ≤ (freeClusters smallVolume (cell smallVolume t.dev.byte)).card ∧
          ¬ OnCluster smallVolume t.dev t.file 1 ∧
          fileByte smallVolume t.dev t.file 0 = 1 ∧ fileByte smallVolume u.dev u.file 0 = 2 ∧
          u.file.position = 513 ∧ fileByte smallVolume u.dev u.file 512 = 0 ∧
          0 < u.file.size)) = some true := by
    decide +kernel
  obtain ⟨t,ht,hrs⟩ := Option.bind_eq_some_iff.mp hrun
  obtain ⟨u,hu,hfc⟩ := Option.map_eq_some_iff.mp hrs
  obtain ⟨hps,hfr,hon,hone,htwo,hmv,hzr,hsz⟩ := of_decide_eq_true hfc
  refine ⟨t,u,⟨rfl,rfl,_,emptyHandle_opened⟩,supplied_write (by decide) (by decide +kernel),⟨1,ht⟩,
    supplied_write ?_ ?_,⟨1,hu⟩,hon,hone,htwo,hmv,hzr,?_⟩
  · rw [hps]
    decide
  · rw [neededClusters,hps]
    exact hfr
  · rintro ⟨v,hv⟩
    obtain rfl := hv.unique hu
    have hby := hv.bytes 0 hsz
    rw [htwo,copyBytes,if_neg (by omega),hone] at hby
    exact absurd hby (by decide)

end HandleRuns

end HarlinKernel.Fat32
