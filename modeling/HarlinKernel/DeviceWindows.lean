import HarlinKernel.KmallocBlocks

/-! The three modules that choose kernel addresses on their own: the heap of `mem/kmalloc.c` with
its growing cursor, the framebuffer of `gpu/display.c` at a fixed address and the pages of the
UHCI driver in `drv/usb.c` at their physical address plus an offset. Here `vmm_map` and
`vmm_unmap` are exact updates of one map from pages to frames; the page tables in memory, which
`PageTable` has, play no role. Port accesses of the mode switches are left out. -/
namespace HarlinKernel.DeviceWindows

open PageAllocator PageTable Kmalloc

/-- Frames of the pages, by page number, and the allocator. -/
structure Paging where
  pages : ℕ → Option ℕ
  pmm : Pmm

namespace Paging

def translate (s : Paging) (virt : ℕ) : Option ℕ := (s.pages (virt / 4096)).map (·+virt % 4096)

def vmmGetPhys (s : Paging) (virt : ℕ) : ℕ := (s.translate virt).getD 0

def vmmMapped (s : Paging) (virt : ℕ) : Bool := s.vmmGetPhys virt ≠ 0

def vmmMap (s : Paging) (virt phys : ℕ) : Paging :=
  { s with pages := Function.update s.pages (virt / 4096) (some (phys &&& frameMask)) }

def vmmUnmap (s : Paging) (virt : ℕ) : Paging :=
  { s with pages := Function.update s.pages (virt / 4096) none }

def pmmFree (s : Paging) (addr : ℕ) : Paging := { s with pmm := PageAllocator.pmmFree s.pmm addr }

end Paging

instance : PageMap Paging where
  pmmAlloc s := ((pmmAlloc s.pmm).1,{ s with pmm := (pmmAlloc s.pmm).2 })
  pmmFree := Paging.pmmFree
  vmmMap := Paging.vmmMap
  vmmUnmap := Paging.vmmUnmap
  vmmGetPhys := Paging.vmmGetPhys

inductive Mode
  | vgaText
  | vga13h
  | vesa
  deriving DecidableEq

/-- The variables of `display.c`. The address that the last accepted mode info reported is kept
with them. -/
structure Display where
  currentMode : Mode
  vesaWidth : ℕ
  vesaHeight : ℕ
  vesaBpp : ℕ
  vesaLfb : ℕ
  reported : ℕ

/-- The heap over its paging, with the regions that `create_block` has mapped, the pages that the
UHCI driver holds and the display. -/
structure Machine where
  heap : Heap Paging
  regions : List (ℕ × ℕ)
  uhci : List ℕ
  display : Display

def Machine.paging (s : Machine) : Paging := s.heap.vmm

def Machine.setPaging (s : Machine) (g : Paging) : Machine :=
  { s with heap := { s.heap with vmm := g } }

/-- The state after a request, from the heap that `kmalloc` left. -/
def Machine.afterKmalloc (s : Machine) (h : Heap Paging) : Machine :=
  { s with
    heap := h
    regions :=
      if h.nextHeapVirt = s.heap.nextHeapVirt then s.regions
      else (s.heap.nextHeapVirt,h.nextHeapVirt) :: s.regions }

def vesaLfbVirtual : ℕ := 0xFFFF800000000000

/-- The bytes at `VBE_MODE_INFO_ADDR`. -/
abbrev ModeInfo := ℕ → UInt8

def vbeModeInfoXres : ℕ := 0x12
def vbeModeInfoYres : ℕ := 0x14
def vbeModeInfoBpp : ℕ := 0x13
def vbeModeInfoLfb : ℕ := 0x22

def readModeInfoLe16 (p : ModeInfo) (offset : ℕ) : ℕ :=
  (p offset).toNat ||| (p (offset+1)).toNat <<< 8

/-- The bytes are combined as an `int`, which is sign-extended to an `unsigned long`. -/
def readModeInfoLe32 (p : ModeInfo) (offset : ℕ) : ℕ :=
  let value := (p offset).toNat ||| (p (offset+1)).toNat <<< 8 ||| (p (offset+2)).toNat <<< 16 |||
    (p (offset+3)).toNat <<< 24
  if value < 2^31 then value else value+(2^64-2^32)

def vesaSetMode (s : Machine) (info : ModeInfo) : ℤ × Machine :=
  let lfb := readModeInfoLe32 info vbeModeInfoLfb
  if lfb = 0 then (-1,s)
  else
    let width := readModeInfoLe16 info vbeModeInfoXres
    let height := readModeInfoLe16 info vbeModeInfoYres
    let bpp := (info vbeModeInfoBpp).toNat
    if bpp ≠ 24 ∧ bpp ≠ 32 then (-1,s)
    else if width = 0 ∨ height = 0 then (-1,s)
    else if 0x100000000 ≤ lfb then (-1,s)
    else
      (0,{ s.setPaging (s.paging.vmmMap vesaLfbVirtual lfb) with
        display := { s.display with
          vesaLfb := vesaLfbVirtual
          vesaWidth := width
          vesaHeight := height
          vesaBpp := bpp
          reported := lfb } })

def Machine.setCurrentMode (s : Machine) (mode : Mode) : Machine :=
  { s with display := { s.display with currentMode := mode } }

def displaySetMode (s : Machine) (mode : ℤ) (info : ModeInfo) : ℤ × Machine :=
  if mode = 0 then (0,s.setCurrentMode .vgaText)
  else if mode = 1 then (0,s.setCurrentMode .vga13h)
  else if mode = 2 then
    let r := vesaSetMode s info
    if r.1 ≠ 0 then (-1,r.2.setCurrentMode .vgaText) else (0,r.2.setCurrentMode .vesa)
  else (-1,s)

/-- The addresses of the framebuffer that `display_put_pixel` writes in VESA mode. -/
def pixelBytes (d : Display) (x y : ℤ) : List ℕ :=
  if x < 0 ∨ d.vesaWidth ≤ x then []
  else if y < 0 ∨ d.vesaHeight ≤ y then []
  else
    let index := (y*d.vesaWidth+x).toNat
    if d.vesaBpp = 32 then (List.range 4).map (d.vesaLfb+index*4+·)
    else (List.range 3).map (d.vesaLfb+index*3+·)

def uhciVirt (phys : ℕ) : ℕ := (phys+0xFFFF800000000000) % 2^64

def uhciPhysToVirt (s : Paging) (phys : ℕ) : ℕ × Paging :=
  if phys = 0 then (0,s)
  else
    (uhciVirt phys,if s.vmmMapped (uhciVirt phys) then s else s.vmmMap (uhciVirt phys) phys)

def uhciAllocPhysPage (s : Paging) : ℕ × Paging :=
  let page := pmmAllocLow s.pmm 1
  let s := { s with pmm := page.2 }
  if page.1 ≠ 0 then
    let r := uhciPhysToVirt s page.1
    if r.1 = 0 then (0,r.2.pmmFree page.1) else (page.1,r.2)
  else (page.1,s)

def uhciFreePhysPage (s : Paging) (phys : ℕ) : Paging :=
  if phys = 0 then s else (s.vmmUnmap (uhciVirt phys)).pmmFree phys

inductive Call
  | kmalloc (size : ℕ)
  | kfree (ptr : ℕ)
  | setMode (mode : ℤ) (info : ModeInfo)
  | uhciAlloc
  | uhciPhysToVirt (phys : ℕ)
  | uhciFree (phys : ℕ)

/-- One call. A call that does not return leads nowhere. -/
def act (s : Machine) : Call → Option Machine
  | .kmalloc size => (kmalloc s.heap size).map fun r => s.afterKmalloc r.2
  | .kfree ptr => some { s with heap := kfree s.heap ptr }
  | .setMode mode info => some (displaySetMode s mode info).2
  | .uhciAlloc =>
    let r := uhciAllocPhysPage s.paging
    some { s.setPaging r.2 with uhci := if r.1 = 0 then s.uhci else r.1 :: s.uhci }
  | .uhciPhysToVirt phys => some (s.setPaging (uhciPhysToVirt s.paging phys).2)
  | .uhciFree phys =>
    some { s.setPaging (uhciFreePhysPage s.paging phys) with uhci := s.uhci.erase phys }

/-- The calls of the display and the UHCI driver. -/
def Call.ofDevice : Call → Bool
  | .kmalloc _ | .kfree _ => false
  | _ => true

end HarlinKernel.DeviceWindows
