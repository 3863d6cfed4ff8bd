import Os161Kernel.Addrspace

/-!
# Loading an executable: `loadelf.c`, `copyout`, `emufs_read`

`load_elf` serves two callers.  `runprogram` calls it with `start` 0: the regions are defined, the stack page is
prepared and every segment is read whole.  `vm_fault` calls it with the address of one page: the headers are read
again and the part of the file that belongs to the page is read.

Programs live on the emulator's file system, whose `emufs_read` transfers at most `EMU_MAXIO` bytes at a time through
one buffer, `e_iobuf`.  From there `uiomove` copies to user memory by `copyout`, a plain `memcpy` to user addresses.  A
store that the TLB does not let through faults into `vm_fault` in the middle of the copy; `vm_fault` may load another
page through the same buffer before the copy goes on.  Locks do nothing in this kernel.

The fault handler is a parameter here (`FaultHandler`) and `Fault` ties the two together.  A copy is done one page at
a time, a store being tried again as long as the handler returns 0.
-/

namespace Os161Kernel

open StateProg Search Memory

/-! ### Error numbers and faults -/

/-- `ENOEXEC`, `EFAULT`, `EINVAL` of `kern/errno.h`. -/
def enoexec : ℕ := 13

def efault : ℕ := 6

def einval : ℕ := 8

/-- The faults that `mips_trap` hands to `vm_fault`. -/
inductive FaultType where
  | readonly
  | read
  | write
deriving DecidableEq

/-- `vm_fault` as its callers see it: 0 when the access may be tried again. -/
abbrev FaultHandler := FaultType → ℕ → Kern ℕ

/-! ### Stores to user memory -/

/-- What the TLB makes of a store. -/
inductive StoreAccess where
  | hit (frame : ℕ)
  | readonly
  | miss
deriving DecidableEq

namespace Kernel

def storeAccess (s : Kernel) (a : ℕ) : StoreAccess :=
  match s.tlbProbe (pageOf a) with
  | none => .miss
  | some k =>
    if (s.tlb k).valid = false then .miss
    else if (s.tlb k).dirty = true then .hit (s.tlb k).frame
    else .readonly

/-- `n` bytes of the device buffer, from `pos` on, go to frame `f` at the offset of `dest`. -/
def copyPiece (s : Kernel) (f pos dest n : ℕ) : Kernel := { s with
  ram := overlay s.ram (f * pageSize + dest % pageSize) n fun k => s.iobuf (pos + k) }

end Kernel

/-- A store to `a`, tried at most `n` times: the frame it goes to, or `none` when `vm_fault` refuses it. -/
def storeFrame (fault : FaultHandler) (a : ℕ) : ℕ → Kern (Option ℕ)
  | 0 => .stop .depth
  | n + 1 => do
    match ← .read fun s => s.storeAccess a with
    | .hit f => pure (some f)
    | .readonly =>
      let r ← fault .readonly a
      if r = 0 then storeFrame fault a n else pure none
    | .miss =>
      let r ← fault .write a
      if r = 0 then storeFrame fault a n else pure none

/-- The `memcpy` of `copyout`, over the pages it touches.  A fault that is refused goes to `copyfail`, unless a copy
made in between has already taken it down. -/
def copyPages (tries : ℕ) (fault : FaultHandler) : ℕ → ℕ → ℕ → ℕ → Kern ℕ
  | 0, _, _, _ => pure 0
  | m + 1, pos, dest, len => do
    match ← storeFrame fault dest tries with
    | some f =>
      let amt := min len (pageSize - dest % pageSize)
      .update fun s => s.copyPiece f pos dest amt
      copyPages tries fault m (pos + amt) (dest + amt) (len - amt)
    | none =>
      let catching ← .read Kernel.badfaultfunc
      panicIf (catching = false) "I can't handle this... I think I'll just die now...\n"
      pure efault

/-- The pages that `len` bytes at `dest` touch. -/
def pagesTouched (dest len : ℕ) : ℕ := (dest % pageSize + len + (pageSize - 1)) / pageSize

/-- `copycheck` and `stoplen != len`: the range is not all of user space. -/
def badUserRange (dest len : ℕ) : Prop :=
  (dest + len - 1) % 2 ^ 32 < dest ∨ kseg0 ≤ dest ∨ kseg0 ≤ (dest + len - 1) % 2 ^ 32

instance (dest len : ℕ) : Decidable (badUserRange dest len) := inferInstanceAs (Decidable (_ ∨ _))

/-- `copyout(e_iobuf, dest, len)`. -/
def copyout (tries : ℕ) (fault : FaultHandler) (dest len : ℕ) : Kern ℕ :=
  if badUserRange dest len then
    pure efault
  else do
    .update fun s => { s with badfaultfunc := true }
    let r ← copyPages tries fault (pagesTouched dest len) 0 dest len
    .update fun s => { s with badfaultfunc := false }
    pure r

/-! ### Reads from the emulator's file system -/

/-- `EMU_MAXIO`. -/
def emuMaxio : ℕ := 16384

/-- The device has put `n` bytes of the file into its buffer. -/
def Kernel.fillIobuf (s : Kernel) (file : File) (offset n : ℕ) : Kernel :=
  { s with iobuf := overlay s.iobuf 0 n fun k => file.byte (offset + k) }

/-- `emufs_read` of the program's file into one buffer at `base`; `move` is what `uiomove` does with the bytes of the
device buffer.  The result is the error number and `uio_resid`. -/
def emufsRead (move : ℕ → ℕ → Kern ℕ) : ℕ → ℕ → ℕ → ℕ → Kern (ℕ × ℕ)
  | 0, _, _, _ => .stop .depth
  | n + 1, base, offset, resid =>
    if resid = 0 ∨ 0xffffffff < offset then
      pure (0, resid)
    else do
      let err ← vfsCall
      if err ≠ 0 then
        pure (err, resid)
      else do
        let file ← .read fun s => s.cur.image
        let got := min (min resid emuMaxio) (file.size - offset)
        .update fun s => s.fillIobuf file offset got
        if got = 0 then
          pure (0, resid)
        else do
          let r ← move base got
          if r ≠ 0 then pure (r, resid)
          else emufsRead move n (base + got) (offset + got) (resid - got)

/-- Rounds enough for any file. -/
def readRounds (resid : ℕ) : ℕ := resid / emuMaxio + 2

/-- `VOP_READ` into a buffer of the kernel. -/
def readKernel (offset len : ℕ) : Kern (ℕ × ℕ) := emufsRead (fun _ _ => pure 0) (readRounds len) 0 offset len

/-- `VOP_READ` into user memory. -/
def readUser (tries : ℕ) (fault : FaultHandler) (vaddr offset len : ℕ) : Kern (ℕ × ℕ) :=
  emufsRead (copyout tries fault) (readRounds len) vaddr offset len

/-! ### Headers -/

/-- The fields of `Elf_Ehdr` that are used after the check. -/
structure Ehdr where
  entry : ℕ
  phoff : ℕ
  phentsize : ℕ
  phnum : ℕ
deriving DecidableEq

/-- `Elf_Phdr`, without the two fields nothing reads. -/
structure Phdr where
  type : ℕ
  offset : ℕ
  vaddr : ℕ
  filesz : ℕ
  memsz : ℕ
  flags : ℕ
deriving DecidableEq

/-- What `load_elf` does with a program header. -/
inductive PhdrKind where
  | skip
  | load
  | unknown
deriving DecidableEq

namespace Phdr

/-- `PT_NULL`, `PT_PHDR` and `PT_MIPS_REGINFO` are skipped, `PT_LOAD` is loaded. -/
def kind (ph : Phdr) : PhdrKind :=
  if ph.type = 0 ∨ ph.type = 6 ∨ ph.type = 0x70000000 then .skip
  else if ph.type = 1 then .load
  else .unknown

/-- `PF_R`, `PF_W`, `PF_X`. -/
def readable (ph : Phdr) : Bool := ph.flags.testBit 2

def writeable (ph : Phdr) : Bool := ph.flags.testBit 1

def executable (ph : Phdr) : Bool := ph.flags.testBit 0

end Phdr

namespace File

/-- A 32-bit big-endian ELF executable of version 1 for MIPS. -/
def IsElf (f : File) : Prop :=
  f.byte 0 = 0x7f ∧ f.byte 1 = 0x45 ∧ f.byte 2 = 0x4c ∧ f.byte 3 = 0x46 ∧ f.byte 4 = 1 ∧ f.byte 5 = 2 ∧
    f.byte 6 = 1 ∧ load32 f.byte 20 = 1 ∧ load16 f.byte 16 = 2 ∧ load16 f.byte 18 = 8

instance (f : File) : Decidable f.IsElf :=
  inferInstanceAs (Decidable (_ ∧ _ ∧ _ ∧ _ ∧ _ ∧ _ ∧ _ ∧ _ ∧ _ ∧ _))

def ehdr (f : File) : Ehdr where
  entry := load32 f.byte 24
  phoff := load32 f.byte 28
  phentsize := load16 f.byte 42
  phnum := load16 f.byte 44

def phdr (f : File) (offset : ℕ) : Phdr where
  type := load32 f.byte offset
  offset := load32 f.byte (offset + 4)
  vaddr := load32 f.byte (offset + 8)
  filesz := load32 f.byte (offset + 16)
  memsz := load32 f.byte (offset + 20)
  flags := load32 f.byte (offset + 24)

end File

/-- `eh.e_phoff + i*eh.e_phentsize`. -/
def Ehdr.phdrOffset (eh : Ehdr) (i : ℕ) : ℕ := (eh.phoff + i * eh.phentsize) % 2 ^ 32

/-- The loops of `load_elf` over the last `k` program headers: `body` for each one to be loaded, until it fails. -/
def forPhdrs (eh : Ehdr) (body : Phdr → Kern ℕ) : ℕ → Kern ℕ
  | 0 => pure 0
  | k + 1 => do
    let offset := eh.phdrOffset (eh.phnum - (k + 1))
    let got ← readKernel offset 32
    if got.1 ≠ 0 then
      pure got.1
    else if got.2 ≠ 0 then
      pure enoexec
    else do
      let ph ← .read fun s => s.cur.image.phdr offset
      match ph.kind with
      | .skip => forPhdrs eh body k
      | .unknown => pure enoexec
      | .load =>
        let r ← body ph
        if r ≠ 0 then pure r else forPhdrs eh body k

/-! ### Segments -/

/-- Where bss is taken to start: a number of pages is added to an address. -/
def Addrspace.noteBss (as : Addrspace) (vaddr filesize : ℕ) : Addrspace :=
  if as.isDataSegment vaddr ∧ as.vbaseBss = 0 then
    { as with vbaseBss := (as.vbaseData + filesize / pageSize + 1) % 2 ^ 32 }
  else as

/-- The row of the page, whoever owns it, is write-protected. -/
def Kernel.protectPage (s : Kernel) (vaddr : ℕ) : Kernel :=
  match s.pageSearch vaddr with
  | some i => s.setRow i { s.mainPG i with dirty := false }
  | none => s

/-- The end of `load_segment`, after the read: the TLB gets the first page anew, write-protected if it is code. -/
def finishSegment (vaddr : ℕ) : Kern Unit := do
  removeTLBv1 vaddr
  match ← .read Kernel.getas with
  | none => .stop .nullDeref
  | some as =>
    .when (as.isCodeSegment vaddr) (.update fun s => s.protectPage vaddr)
    let pid ← .read Kernel.curPid
    addTLB vaddr pid

/-- `load_segment(as, v, offset, vaddr, memsize, filesize, is_executable)`. -/
def loadSegment (tries : ℕ) (fault : FaultHandler) (offset vaddr memsize filesize : ℕ) : Kern ℕ := do
  .update fun s => s.mapas fun as => as.noteBss vaddr (min filesize memsize)
  let got ← readUser tries fault vaddr offset (min filesize memsize)
  if got.1 ≠ 0 then
    pure got.1
  else do
    finishSegment vaddr
    pure (if got.2 ≠ 0 then enoexec else 0)

/-- `ph.p_memsz` as the eager load takes it: a segment with more than the limit of pages in the file is cut to the
pages that were allocated. -/
def Addrspace.eagerSize (as : Addrspace) (ph : Phdr) : ℕ :=
  if ph.vaddr = as.vbaseCode then
    if 16 < ph.filesz / pageSize then as.npagesCodeLoaded * pageSize else ph.memsz
  else if ph.vaddr = as.vbaseData then
    if 100 < ph.filesz / pageSize then as.npagesDataLoaded * pageSize else ph.memsz
  else ph.memsz

/-- Whether the page at `start` is to be read by way of this header. -/
def Addrspace.Supplies (as : Addrspace) (ph : Phdr) (start : ℕ) : Prop :=
  (as.isCodeSegment start ∧ as.isCodeSegment ph.vaddr) ∨
  (¬ as.isCodeSegment start ∧ as.isDataSegment start ∧ as.isDataSegment ph.vaddr ∧ ¬ as.isBssSegment start)

instance (as : Addrspace) (ph : Phdr) (start : ℕ) : Decidable (as.Supplies ph start) :=
  inferInstanceAs (Decidable (_ ∨ _))

/-- The second loop's work for one header. -/
def loadPhdr (tries : ℕ) (fault : FaultHandler) (start npages : ℕ) (ph : Phdr) : Kern ℕ := do
  match ← .read Kernel.getas with
  | none => .stop .nullDeref
  | some as =>
    if start = 0 then
      loadSegment tries fault ph.offset ph.vaddr (as.eagerSize ph) ph.filesz
    else if as.Supplies ph start then
      loadSegment tries fault ((ph.offset + (start + 2 ^ 32 - ph.vaddr)) % 2 ^ 32) start (npages * pageSize)
        (npages * pageSize)
    else
      pure 0

/-- The first loop's work for one header. -/
def definePhdr (d start : ℕ) (ph : Phdr) : Kern ℕ := do
  .when (start = 0)
    (asDefineRegion d ph.vaddr ph.memsz ph.readable ph.writeable ph.executable)
  pure 0

/-- `load_elf(v, &entrypoint, start, npages)`: an error number, or the entry point. -/
def loadElf (d tries : ℕ) (fault : FaultHandler) (start npages : ℕ) : Kern (Except ℕ ℕ) := do
  let header ← readKernel 0 52
  if header.1 ≠ 0 then
    pure (.error header.1)
  else if header.2 ≠ 0 then
    pure (.error enoexec)
  else do
    let file ← .read fun s => s.cur.image
    let eh := file.ehdr
    if file.IsElf then do
      let defined ← forPhdrs eh (definePhdr d start) eh.phnum
      if defined ≠ 0 then
        pure (.error defined)
      else do
        .when (start = 0) (asPrepareLoad d)
        let loaded ← forPhdrs eh (loadPhdr tries fault start npages) eh.phnum
        if loaded ≠ 0 then pure (.error loaded) else pure (.ok eh.entry)
    else
      pure (.error enoexec)

end Os161Kernel
