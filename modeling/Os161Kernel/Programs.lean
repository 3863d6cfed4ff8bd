import Os161Kernel.PagingRuns

/-!
# Executables and machines that run them

An executable is written from its program headers, and a machine with a given number of frames boots and loads it.
Whatever the executable, the machine after the load is a state of a paging run (`programLoaded_reaches`).
-/

namespace Os161Kernel

open StateProg Search Memory Runs

/-! ### Executables -/

def bytes32 (w : ℕ) : List UInt8 := [byteOf w 0, byteOf w 1, byteOf w 2, byteOf w 3]

def bytes16 (w : ℕ) : List UInt8 := [byteOf w 2, byteOf w 3]

/-- The ELF header of an executable for MIPS with `phnum` program headers right behind it. -/
def ehdrBytes (entry phnum : ℕ) : List UInt8 :=
  [0x7f, 0x45, 0x4c, 0x46, 1, 2, 1, 0, 0, 0, 0, 0, 0, 0, 0, 0] ++ bytes16 2 ++ bytes16 8 ++ bytes32 1 ++
    bytes32 entry ++ bytes32 52 ++ bytes32 0 ++ bytes32 0 ++ bytes16 52 ++ bytes16 32 ++ bytes16 phnum ++
    bytes16 0 ++ bytes16 0 ++ bytes16 0

def Phdr.bytes (ph : Phdr) : List UInt8 :=
  bytes32 ph.type ++ bytes32 ph.offset ++ bytes32 ph.vaddr ++ bytes32 0 ++ bytes32 ph.filesz ++ bytes32 ph.memsz ++
    bytes32 ph.flags ++ bytes32 0

/-- The executable with these program headers and zeros behind them. -/
def elfImage (size entry : ℕ) (phdrs : List Phdr) : File where
  size := size
  byte k := (ehdrBytes entry phdrs.length ++ phdrs.flatMap Phdr.bytes).getD k 0

/-- A segment to be loaded, with `PF_R|PF_X`. -/
def codePhdr (offset vaddr filesz memsz : ℕ) : Phdr := ⟨1, offset, vaddr, filesz, memsz, 5⟩

/-- A segment to be loaded, with `PF_R|PF_W`. -/
def dataPhdr (offset vaddr filesz memsz : ℕ) : Phdr := ⟨1, offset, vaddr, filesz, memsz, 6⟩

/-! ### Machines -/

/-- A machine with `frames` frames, process `n` with pid `n`, all to run `image`, and process 1 running; call `n` into
the file system returns `fails n`. -/
def programMachine (frames : ℕ) (h : frames * pageSize ≤ 512 * 1024 * 1024) (image : File) (fails : ℕ → ℕ) : Kernel :=
  { Kernel.blank 4096 (frames * pageSize) h with
    procs := fun n => ⟨n.toUInt8, none, image⟩
    curproc := 1
    ioResult := fails }

theorem programMachine_powerOn {frames : ℕ} (h : frames * pageSize ≤ 512 * 1024 * 1024) (hfit : 1 ≤ frames)
    (image : File) (fails : ℕ → ℕ) : PowerOn (programMachine frames h image fails) where
  vmStarted := rfl
  pagetableEntry := rfl
  frameList := rfl
  frameListEnd := rfl
  allbase := rfl
  sizebases _ := rfl
  kheaproots _ := rfl
  firstpaddr := (by decide : 4096 % pageSize = 0)
  lastpaddr := Nat.mul_mod_left frames pageSize
  firstpaddr_le := Nat.le_mul_of_pos_left pageSize hfit

/-- An address space as `as_create` makes it, in a block of zeros. -/
def zeroAddrspace : Addrspace := ⟨0, 0, 0, 0, 0, 0, 0, 0, 0⟩

/-- The machine after boot, with an address space for process 1. -/
def programBooted (frames : ℕ) (h : frames * pageSize ≤ 512 * 1024 * 1024) (image : File) (fails : ℕ → ℕ) :
    Option Kernel :=
  (kmalloc 5 8 (programMachine frames h image fails)).state?.bind fun s₁ =>
    if s₁.lastpaddr = frames * pageSize ∧ s₁.firstpaddr = 12288 ∧ 12288 ≤ tableLocation (frames * pageSize) then
      (vmBootstrap 5 s₁).state?.bind fun s₂ => some (s₂.setas (some zeroAddrspace))
    else none

/-- The machine after `load_elf` of the whole program. -/
def programLoaded (frames : ℕ) (h : frames * pageSize ≤ 512 * 1024 * 1024) (image : File) (fails : ℕ → ℕ) :
    Option Kernel :=
  (programBooted frames h image fails).bind fun s =>
    if s.curPid ≠ 0 then (loadElf 5 3 (vmFault 5 3) 0 0 s).state? else none

section Reach

variable {frames : ℕ} {h : frames * pageSize ≤ 512 * 1024 * 1024} {image : File} {fails : ℕ → ℕ} {s : Kernel}

theorem programBooted_reaches (hfit : 1 ≤ frames) (hs : programBooted frames h image fails = some s) :
    ∃ B P, Reaches PagingStep (Client.Booted (frames * pageSize) 12288) ⟨B, P, s⟩ := by
  obtain ⟨s₁, hs₁, hrest⟩ := Option.bind_eq_some_iff.mp hs
  obtain ⟨⟨hlast, hfirst, htable⟩, hrest⟩ := Option.ite_none_right_eq_some.mp hrest
  obtain ⟨s₂, hs₂, hrest⟩ := Option.bind_eq_some_iff.mp hrest
  obtain ⟨a, hmalloc⟩ := exists_of_state? hs₁
  have hbooted := Client.booted_of_kmalloc (programMachine_powerOn h hfit image fails) hmalloc (by decide) hlast hfirst
    htable (state?_eq_some.mp hs₂)
  rw [← Option.some.inj hrest]
  exact ⟨_, _, .next (.start hbooted) (.edit rfl rfl rfl)⟩

theorem programLoaded_reaches (hfit : 1 ≤ frames) (hs : programLoaded frames h image fails = some s) :
    ∃ B P, Reaches PagingStep (Client.Booted (frames * pageSize) 12288) ⟨B, P, s⟩ := by
  obtain ⟨s₂, hs₂, hrest⟩ := Option.bind_eq_some_iff.mp hs
  obtain ⟨hpid, hrest⟩ := Option.ite_none_right_eq_some.mp hrest
  obtain ⟨B, P, hreach⟩ := programBooted_reaches hfit hs₂
  obtain ⟨r, hload⟩ := exists_of_state? hrest
  exact ⟨B, P, hreach.next (.load hpid hload)⟩

end Reach

end Os161Kernel
