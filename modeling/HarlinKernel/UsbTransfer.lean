import Mathlib.Tactic

/-! The pages of `uhci_control_transfer` in `drv/usb.c`. What the page allocator and `vmm_map`
answer is given call by call, and the calls of `pmm_alloc_contiguous_low` and `pmm_free` are
logged; the descriptors and the data are left out, up to the status words that the device leaves. -/
namespace HarlinKernel.UsbTransfer

/-- A page that was allocated or freed. -/
inductive Event
  | alloc (phys : ℕ)
  | free (phys : ℕ)
  deriving DecidableEq

/-- The answers to the calls: a page or 0, whether a page is mapped, and whether it can be. -/
structure World where
  page : ℕ → ℕ
  mapped : ℕ → Bool
  mapOk : ℕ → Bool

/-- The calls made so far. -/
structure State where
  pages : ℕ
  maps : ℕ
  log : List Event

def pmmFree (s : State) (phys : ℕ) : State := { s with log := s.log ++ [.free phys] }

variable (w : World)

/-- Whether a pointer is returned. -/
def uhciPhysToVirt (s : State) (phys : ℕ) : Bool × State :=
  if phys = 0 then (false,s) else (w.mapped s.maps || w.mapOk s.maps,{ s with maps := s.maps+1 })

def uhciAllocPhysPage (s : State) : ℕ × State :=
  let page := w.page s.pages
  let s := { s with pages := s.pages+1 }
  if page ≠ 0 then
    let r := uhciPhysToVirt w { s with log := s.log ++ [.alloc page] } page
    if r.1 then (page,r.2) else (0,pmmFree r.2 page)
  else (page,s)

def uhciFreePhysPage (s : State) (phys : ℕ) : State := if phys = 0 then s else pmmFree s phys

def freePages (s : State) (l : List ℕ) : State := l.foldl uhciFreePhysPage s

/-- From the page of the queue head on; `result` is what the status words give in the end. -/
def queueTransfer (s : State) (tds : List ℕ) (dataBuf : ℕ) (result : ℤ) : ℤ × State :=
  let q := uhciAllocPhysPage w s
  let v := uhciPhysToVirt w q.2 q.1
  if q.1 = 0 then (-1,freePages q.2 (tds ++ [dataBuf]))
  else if v.1 = false then (-1,freePages v.2 (q.1 :: (tds ++ [dataBuf])))
  else (result,freePages (pmmFree v.2 q.1) (tds ++ [dataBuf]))

/-- From the page of the data on. -/
def dataTransfer (s : State) (tds : List ℕ) (result : ℤ) : ℤ × State :=
  let d := uhciAllocPhysPage w s
  let v := uhciPhysToVirt w d.2 d.1
  if d.1 = 0 then (-1,freePages d.2 tds)
  else if v.1 = false then (-1,freePages v.2 (d.1 :: tds))
  else queueTransfer w v.2 tds d.1 result

/-- From the check of the pointers to the three descriptors on. -/
def tdTransfer (s : State) (td₀ td₁ td₂ : ℕ) (dataLen result : ℤ) : ℤ × State :=
  let v₀ := uhciPhysToVirt w s td₀
  let v₁ := uhciPhysToVirt w v₀.2 td₁
  let v₂ := uhciPhysToVirt w v₁.2 td₂
  if v₀.1 = false ∨ v₁.1 = false ∨ v₂.1 = false then (-1,freePages v₂.2 [td₀,td₁,td₂])
  else if 0 < dataLen then dataTransfer w v₂.2 [td₀,td₁,td₂] result
  else queueTransfer w v₂.2 [td₀,td₁,td₂] 0 result

/-- `data` says that the pointer is not null. -/
def uhciControlTransfer (s : State) (data : Bool) (dataLen result : ℤ) : ℤ × State :=
  if dataLen < 0 ∨ 4096 < dataLen then (-1,s)
  else if 0 < dataLen ∧ data = false then (-1,s)
  else
    let r₀ := uhciAllocPhysPage w s
    let r₁ := uhciAllocPhysPage w r₀.2
    let r₂ := uhciAllocPhysPage w r₁.2
    if r₀.1 = 0 ∨ r₁.1 = 0 ∨ r₂.1 = 0 then (-1,freePages r₂.2 [r₀.1,r₁.1,r₂.1])
    else tdTransfer w r₂.2 r₀.1 r₁.1 r₂.1 dataLen result

/-- Each page is freed as often as it is allocated, and never before. -/
def Balanced (l : List Event) : Prop := ∀ f, l.count (.alloc f) = l.count (.free f) ∧
  ∀ p, p <+: l → p.count (.free f) ≤ p.count (.alloc f)

/-- The pages of a list, zeros apart, are allocated and not yet freed. -/
structure Holds (s : State) (ps : List ℕ) : Prop where
  count : ∀ f, s.log.count (.alloc f) = s.log.count (.free f)+if f = 0 then 0 else ps.count f
  prefixes : ∀ f p, p <+: s.log → p.count (.free f) ≤ p.count (.alloc f)

section Pages

variable {w} {s t : State} {ps qs : List ℕ} {phys : ℕ}

lemma Holds.congr (h : Holds s ps) (hc : ∀ f ≠ 0, ps.count f = qs.count f) : Holds s qs := by
  refine ⟨fun f => ?_,h.prefixes⟩
  rw [h.count]
  by_cases hf : f = 0
  · simp [hf]
  · simp [hf,hc f hf]

lemma Holds.perm (h : Holds s ps) (hp : ps.Perm qs) : Holds s qs :=
  h.congr fun f _ => hp.count_eq f

lemma holds_zero_iff : Holds s (ps ++ [0]) ↔ Holds s ps := by
  have hc : ∀ f ≠ 0, (ps ++ [0]).count f = ps.count f := fun f hf => by
    rw [List.count_append,List.count_singleton,if_neg (by simpa using Ne.symm hf),Nat.add_zero]
  exact ⟨fun h => h.congr hc,fun h => h.congr fun f hf => (hc f hf).symm⟩

lemma Holds.append (h : Holds s ps) (e : Event) (ht : t.log = s.log ++ [e])
    (hq : ∀ f, t.log.count (.alloc f) = t.log.count (.free f)+if f = 0 then 0 else qs.count f) :
    Holds t qs := by
  refine ⟨hq,fun f p hp => ?_⟩
  rw [ht,List.prefix_concat_iff] at hp
  rcases hp with rfl | hp
  · rw [← ht,hq]
    exact Nat.le_add_right _ _
  · exact h.prefixes f p hp

lemma Holds.virt (h : Holds s ps) (phys : ℕ) : Holds (uhciPhysToVirt w s phys).2 ps := by
  rw [uhciPhysToVirt]
  split_ifs
  · exact h
  · exact ⟨h.count,h.prefixes⟩

lemma Holds.allocated (h : Holds s ps) (hp : phys ≠ 0) (ht : t.log = s.log ++ [.alloc phys]) :
    Holds t (ps ++ [phys]) := by
  refine h.append _ ht fun f => ?_
  have hc := h.count f
  rw [ht]
  by_cases hf : phys = f
  · subst hf
    simp_all
    omega
  · simp_all

lemma Holds.pmmFree (h : Holds s (phys :: ps)) (hp : phys ≠ 0) : Holds (pmmFree s phys) ps := by
  refine h.append (.free phys) rfl fun f => ?_
  have hc := h.count f
  rw [UsbTransfer.pmmFree]
  by_cases hf : phys = f
  · subst hf
    simp_all
    omega
  · simp_all

lemma Holds.free (h : Holds s (phys :: ps)) : Holds (uhciFreePhysPage s phys) ps := by
  rw [uhciFreePhysPage]
  split_ifs with hp
  · exact h.congr fun f hf => List.count_cons_of_ne (hp ▸ Ne.symm hf)
  · exact h.pmmFree hp

lemma Holds.freePages (h : Holds s ps) : Holds (freePages s ps) [] := by
  induction ps generalizing s with
  | nil => exact h
  | cons p ps ih => exact ih h.free

/-- Where the page cannot be mapped it is given back, and 0 returned. -/
theorem Holds.alloc (h : Holds s ps) :
    Holds (uhciAllocPhysPage w s).2 (ps ++ [(uhciAllocPhysPage w s).1]) := by
  rw [uhciAllocPhysPage]
  dsimp only
  split_ifs with hp hmap
  · exact (h.allocated hp rfl).virt _
  · refine holds_zero_iff.mpr (Holds.pmmFree ?_ hp)
    exact ((h.allocated hp rfl).virt _).perm List.perm_append_comm
  · rw [not_not.mp hp]
    exact holds_zero_iff.mpr ⟨h.count,h.prefixes⟩

lemma Holds.queueTransfer {d : ℕ} {result : ℤ} (h : Holds s (ps ++ [d])) :
    Holds (queueTransfer w s ps d result).2 [] := by
  have hq := h.alloc (w:=w)
  have hv := (hq.virt (w:=w) (uhciAllocPhysPage w s).1).perm List.perm_append_comm
  rw [UsbTransfer.queueTransfer]
  split_ifs with hp
  · rw [hp] at hq
    exact (holds_zero_iff.mp hq).freePages
  · exact hv.freePages
  · exact (hv.pmmFree hp).freePages

lemma Holds.dataTransfer {result : ℤ} (h : Holds s ps) :
    Holds (dataTransfer w s ps result).2 [] := by
  have hd := h.alloc (w:=w)
  have hv := hd.virt (w:=w) (uhciAllocPhysPage w s).1
  rw [UsbTransfer.dataTransfer]
  split_ifs with hp
  · rw [hp] at hd
    exact (holds_zero_iff.mp hd).freePages
  · exact (hv.perm List.perm_append_comm).freePages
  · exact hv.queueTransfer

lemma Holds.tdTransfer {a b c : ℕ} {dataLen result : ℤ} (h : Holds s [a,b,c]) :
    Holds (tdTransfer w s a b c dataLen result).2 [] := by
  have hv := ((h.virt (w:=w) a).virt (w:=w) b).virt (w:=w) c
  rw [UsbTransfer.tdTransfer]
  split_ifs
  · exact hv.freePages
  · exact hv.dataTransfer
  · exact (holds_zero_iff.mpr hv).queueTransfer

end Pages

/-- Every page that a control transfer allocates is freed once before it returns, and no other. -/
theorem transfer_returns_pages (w : World) (pages maps : ℕ) (data : Bool) (dataLen result : ℤ) :
    Balanced (uhciControlTransfer w ⟨pages,maps,[]⟩ data dataLen result).2.log := by
  suffices h : Holds (uhciControlTransfer w ⟨pages,maps,[]⟩ data dataLen result).2 [] from
    fun f => ⟨by simpa using h.count f,h.prefixes f⟩
  have hst : Holds ⟨pages,maps,[]⟩ [] := ⟨by simp,by simp⟩
  have htds := ((hst.alloc (w:=w)).alloc (w:=w)).alloc (w:=w)
  rw [uhciControlTransfer]
  split_ifs
  · exact hst
  · exact hst
  · dsimp only
    split_ifs
    · exact htds.freePages
    · exact Holds.tdTransfer htds

end HarlinKernel.UsbTransfer
