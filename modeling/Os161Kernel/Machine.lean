import Os161Kernel.Lib.StateProg
import Os161Kernel.Lib.Memory
import Mathlib.Logic.Function.Basic
import Mathlib.Algebra.GroupWithZero.Nat

/-!
# The machine state of the kernel's memory system

One record holds what `src/vm`, `src/lib/list.c`, `src/proc` and the ELF loader share: physical
memory, the inverted page table `main_PG`, the frame list, the subpage allocator of `kmalloc.c`, the
TLB, the swap file with its table `sf_list`, the processes and the statistics.

Addresses and frame numbers are natural numbers; arithmetic that can leave 32 bits is reduced where the
source computes it.  A page number is a 20-bit value and a pid an 8-bit one, the widths `main_PG` keeps
of them.  Every modelled function is a program over this record which may stop: a `panic`, a failed
`KASSERT`, a dereference of a null or dangling list pointer, or a process that exits and does not come
back.

The kernel is taken between two interrupts: locks and `spl` calls have no counterpart here.
-/

namespace Os161Kernel

open Memory StateProg

/-! ### Constants of the source -/

def pageSize : ℕ := 4096

/-- `MIPS_KSEG0`, which is also `USERSPACETOP`. -/
def kseg0 : ℕ := 0x80000000

def numTLB : ℕ := 64

/-- `SWAPFILE_SIZE`, the number of slots of `sf_list`. -/
def swapfileSize : ℕ := 2304

/-- A virtual page number. -/
abbrev PageNo := Fin (2 ^ 20)

instance neZero_pages : NeZero (2 ^ 20) := ⟨by decide⟩

instance neZero_tlb : NeZero 64 := ⟨by decide⟩

/-- The page of a 32-bit virtual address. -/
@[irreducible] def pageOf (vaddr : ℕ) : PageNo := Fin.ofNat (2 ^ 20) (vaddr / pageSize)

/-- The first address of a page. -/
@[irreducible] def pageAddr (p : PageNo) : ℕ := p.val * pageSize

/-- `(kvaddr - MIPS_KSEG0) / PAGE_SIZE` in 32-bit arithmetic. -/
@[irreducible] def frameIndex (kvaddr : ℕ) : ℕ := (2 ^ 32 - kseg0 + kvaddr) % 2 ^ 32 / pageSize

/-- `PADDR_TO_KVADDR(frame * PAGE_SIZE)`. -/
@[irreducible] def kvaddr (frame : ℕ) : ℕ := kseg0 + frame * pageSize

/-! ### Tables -/

/-- `struct invertedPT`: who uses a physical frame. -/
structure InvertedPT where
  dirty : Bool
  valid : Bool
  pid : UInt8
  pageNumber : PageNo
  victimCounter : UInt16
deriving DecidableEq

/-- `struct frame_list_struct`, with the address of the block that holds it.  The link is the order of
the list. -/
structure FrameListStruct where
  frameNumber : ℕ
  ptr : ℕ
deriving DecidableEq

/-- `struct pageref`: a heap page cut into blocks of one size.  The free list is kept as the offsets of
its blocks in order, so `freelist_offset` is its head. -/
structure Pageref where
  page : ℕ
  blocktype : ℕ
  freelist : List ℕ
  nfree : ℕ
deriving DecidableEq

/-- `struct kheap_root`: a page of pagerefs, when it has been allocated, and its bitmap. -/
structure KheapRoot where
  page : Option ℕ
  inuse : ℕ → Bool
  numinuse : ℕ

/-- One slot of the hardware TLB. -/
structure TlbEntry where
  vpage : PageNo
  frame : ℕ
  dirty : Bool
  valid : Bool
deriving DecidableEq

/-- `struct list_param`: one slot of the swap file. -/
structure ListParam where
  number : PageNo
  pid : UInt8
  offset : ℕ
  dirty : Bool
deriving DecidableEq

/-- `struct addrspace`, with the address of the block that holds it. -/
structure Addrspace where
  ptr : ℕ
  vbaseCode : ℕ
  npagesCode : ℕ
  npagesCodeLoaded : ℕ
  vbaseData : ℕ
  npagesData : ℕ
  npagesDataLoaded : ℕ
  vbaseBss : ℕ
  vbaseStack : ℕ
deriving DecidableEq

/-- A regular file. -/
structure File where
  size : ℕ
  byte : Bytes

/-- The part of `struct proc` the memory system reads.  `image` is the file that `p_name` names. -/
structure Proc where
  pid : UInt8
  addrspace : Option Addrspace
  image : File

/-- The counters of `vmstats.c`, 32-bit and wrapping. -/
structure VmStats where
  tlbFaults : UInt32
  tlbFaultsWFree : UInt32
  tlbFaultsWReplace : UInt32
  tlbInvalidations : UInt32
  tlbReloads : UInt32
  pfZeroed : UInt32
  pfDisk : UInt32
  pfElf : UInt32
  pfSwapfile : UInt32
  sfWrites : UInt32
deriving DecidableEq

/-- The memory system's state.  Two bounds that `ram_bootstrap` establishes are part of the record: the
machine has at most 512 MB, hence at most `2 ^ 17` frames. -/
structure Kernel where
  /-- Physical memory. -/
  ram : Bytes
  firstpaddr : ℕ
  lastpaddr : ℕ
  lastpaddr_le : lastpaddr ≤ 512 * 1024 * 1024
  vmStarted : Bool
  mainPG : ℕ → InvertedPT
  /-- Physical address of the page table itself. -/
  mainPGLocation : ℕ
  pagetableEntry : ℕ
  pagetableEntry_le : pagetableEntry ≤ 2 ^ 17
  ptCounter : UInt32
  frameList : List FrameListStruct
  /-- The `next_frame` word of the last node; `NULL` is 0. -/
  frameListEnd : ℕ
  kheaproots : ℕ → KheapRoot
  /-- The pagerefs by their address. -/
  pagerefs : ℕ → Pageref
  sizebases : ℕ → List ℕ
  allbase : List ℕ
  tlb : ℕ → TlbEntry
  freeTLBEntries : UInt32
  /-- `next_victim`, kept modulo `NUM_TLB`. -/
  nextVictim : Fin 64
  /-- The `_Bool TLB_PID` of `addrspace.c`. -/
  tlbPid : Bool
  sfList : ℕ → ListParam
  /-- The bytes of the swap file. -/
  swapfile : Bytes
  procs : ℕ → Proc
  curproc : ℕ
  /-- The result of the `n`-th call into the file system, 0 for success. -/
  ioResult : ℕ → ℕ
  ioCount : ℕ
  /-- The transfer buffer `e_iobuf` of the emulator device. -/
  iobuf : Bytes
  /-- Whether `tm_badfaultfunc` is set: a copy to user memory is under way. -/
  badfaultfunc : Bool
  stats : VmStats

/-- The codes of `kern/errno.h` that the file systems return. -/
inductive Errno where
  | enoent
  | enotdir
  | eisdir
  | eexist
  | einval
  | enodev
  | enxio
  | ebusy
  | eio
  | enospc
  | efbig
  | enametoolong
  | efault
  | enomem
deriving DecidableEq

/-- Why a kernel path does not return. -/
inductive Stop where
  | panic (message : String)
  | kassert (condition : String)
  | nullDeref
  | wildDeref
  | exited (s : Kernel)
  | depth

/-- A kernel function. -/
abbrev Kern := Prog Stop Kernel

def panic {α : Type} (message : String) : Kern α := .stop (.panic message)

def kassert (c : Prop) [Decidable c] (text : String) : Kern Unit := .require c (.kassert text)

/-- `if (c) panic(message);` -/
def panicIf (c : Prop) [Decidable c] (message : String) : Kern Unit :=
  .require (¬ c) (.panic message)

namespace Kernel

/-- The process whose thread is running. -/
def cur (s : Kernel) : Proc := s.procs s.curproc

/-- `curproc->pid`. -/
def curPid (s : Kernel) : UInt8 := s.cur.pid

/-- A frame that is on no list: its entry is valid. -/
def Valid (s : Kernel) (f : ℕ) : Prop := (s.mainPG f).valid = true

instance (s : Kernel) (f : ℕ) : Decidable (s.Valid f) := inferInstanceAs (Decidable (_ = true))

/-- A frame holding a page of a user process. -/
def User (s : Kernel) (f : ℕ) : Prop := s.Valid f ∧ (s.mainPG f).pid ≠ 0

instance (s : Kernel) (f : ℕ) : Decidable (s.User f) := inferInstanceAs (Decidable (_ ∧ _))

/-- The frames that `frame_list` holds, in order. -/
def freeFrames (s : Kernel) : List ℕ := s.frameList.map FrameListStruct.frameNumber

end Kernel

/-- The 4096 bytes of a frame. -/
def frameBytes (m : Bytes) (f : ℕ) : Fin 4096 → UInt8 := fun i => m (f * pageSize + i)

/-! ### Address arithmetic -/

theorem frameIndex_kvaddr {f : ℕ} (h : f ≤ 2 ^ 17) (k : ℕ) (hk : k < 4096) :
    frameIndex (kvaddr f + k) = f := by
  simp only [frameIndex, kvaddr, pageSize, kseg0]
  omega

theorem frameIndex_kvaddr_self {f : ℕ} (h : f ≤ 2 ^ 17) : frameIndex (kvaddr f) = f := by
  simp only [frameIndex, kvaddr, pageSize, kseg0]
  omega

theorem kvaddr_ne_zero (f : ℕ) : kvaddr f ≠ 0 := by
  simp only [kvaddr, kseg0]
  omega

theorem pageOf_pageAddr (p : PageNo) : pageOf (pageAddr p) = p := by
  unfold pageOf pageAddr
  rw [Nat.mul_div_cancel _ (by decide)]
  exact Fin.ofNat_val_eq_self p

theorem frameBytes_overlay_of_ne {m : Bytes} {f g a n : ℕ} {src : ℕ → UInt8} (hne : f ≠ g)
    (ha : g * pageSize ≤ a) (hn : a + n ≤ (g + 1) * pageSize) :
    frameBytes (overlay m a n src) f = frameBytes m f := by
  funext i
  refine overlay_outside ?_
  have hi := i.isLt
  simp only [pageSize] at *
  rcases Nat.lt_or_gt_of_ne hne with h | h
  · have : (f + 1) * 4096 ≤ g * 4096 := Nat.mul_le_mul_right _ h
    omega
  · have : (g + 1) * 4096 ≤ f * 4096 := Nat.mul_le_mul_right _ h
    omega

end Os161Kernel
