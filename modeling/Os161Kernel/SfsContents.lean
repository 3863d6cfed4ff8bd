import Os161Kernel.SfsIo

/-!
# The bytes that truncation cuts off

Reads, writes and truncations of the files of a volume, and what becomes of one byte of a file.  A write replaces the
bytes that it covers; `sfs_itrunc` gives blocks back but does not touch the bytes of a block that it keeps.
-/

namespace Os161Kernel

open Calls Memory Runs

-- Specifications are used through their rules; unfolding them would run the loops.
attribute [local irreducible] Ends

namespace Sfs

variable {s t : Sfs} {u : Uio} {h own p n a m : ℕ} {len : Int}

/-! ### Operations on files -/

/-- `sfs_read` and `sfs_write`; the request as it is afterwards is part of the result. -/
def fileIo (h : ℕ) (u : Uio) : SfsCall (Unit × Request Sfs) :=
  .onLarger (fun s => ⟨s, u⟩) Request.dev (device.io h)

/-- A vnode of a file, and not of the directory. -/
def IsFile (s : Sfs) (h : ℕ) : Prop := h ∈ s.vnodes ∧ (s.sv h).ino ≠ 1

instance (s : Sfs) (h : ℕ) : Decidable (s.IsFile h) := inferInstanceAs (Decidable (_ ∧ _))

/-- The operations on the contents of a file: `sfs_io` with a request, and `sfs_truncate`. -/
inductive FileOp where
  | io (h : ℕ) (u : Uio)
  | truncate (h : ℕ) (len : Int)

namespace FileOp

def vnode : FileOp → ℕ
  | .io h _ => h
  | .truncate h _ => h

def call : FileOp → SfsCall Unit
  | .io h u => do
    let _ ← fileIo h u
    pure ()
  | .truncate h len => itrunc h len

/-- The vnode is one of a file that the caller holds, and the buffers have room for the request. -/
def Legal (s : Sfs) : FileOp → Prop
  | .io h u => s.IsFile h ∧ u.Room
  | .truncate h _ => s.IsFile h

instance (s : Sfs) : (op : FileOp) → Decidable (op.Legal s)
  | .io h u => inferInstanceAs (Decidable (s.IsFile h ∧ u.resid ≤ u.space))
  | .truncate h _ => inferInstanceAs (Decidable (s.IsFile h))

/-- The request covers byte `p` of the file of `h`. -/
def Writes (h p : ℕ) : FileOp → Prop
  | .io g u => g = h ∧ u.rw = .write ∧ place u.offset ≤ p ∧ p < place u.offset + u.resid
  | .truncate _ _ => False

/-- The truncation gives back the block of byte `p` of the file of `h`. -/
def Clears (h p : ℕ) : FileOp → Prop
  | .io _ _ => False
  | .truncate g len => g = h ∧ Discards (blocklen len) (p / 512)

instance (h p : ℕ) : (op : FileOp) → Decidable (op.Clears h p)
  | .io _ _ => inferInstanceAs (Decidable False)
  | .truncate _ _ => inferInstanceAs (Decidable (_ ∧ _))

theorem Clears.vnode_eq {op : FileOp} (hc : op.Clears h p) : op.vnode = h := by
  cases op with
  | io g u => exact hc.elim
  | truncate g len => exact hc.1

theorem Legal.isFile {op : FileOp} (hop : op.Legal s) : s.IsFile op.vnode := by
  cases op with
  | io g u => exact hop.1
  | truncate g len => exact hop

end FileOp

/-- One operation on a file, which may fail. -/
def fileStep (s : Sfs) (op : FileOp) : Option Sfs := if op.Legal s then (op.call s).state? else none

/-! ### One byte -/

theorem Trimmed.byte (htr : Trimmed own n s t) (ha : s.Acct) (hl : s.Live own) (p : ℕ) :
    t.fileByte own p = if Discards n (p / 512) then 0 else s.fileByte own p := by
  unfold fileByte
  rw [htr.block (p / 512)]
  by_cases hd : Discards n (p / 512)
  · rw [if_pos hd, if_pos hd, if_pos rfl]
  · rw [if_neg hd, if_neg hd]
    by_cases hb : s.fileBlock own (p / 512) = 0
    · rw [if_pos hb, if_pos hb]
    · -- a data block is not the indirect block, the only one that is rewritten
      have hid : s.fileBlock own (p / 512) ≠ s.ptr own .indirect := fun heq =>
        Ptr.block_ne_indirect (p / 512) (ha.ptr_inj hl hl hb heq.symm).2.symm
      rw [if_neg hb, if_neg hb, htr.disk _ hid]

theorem Written.byte {r : Request Sfs} (hrw : u.rw = .write) (hw : Written s u own a m r)
    (hout : p < place u.offset ∨ place u.offset + a ≤ p) : r.dev.fileByte own p = s.fileByte own p := by
  have hbytes : r.dev.fileByte own = u.kernelSide (s.fileByte own) (place u.offset) a :=
    congrArg SfsFile.bytes hw.dev.file
  rw [hbytes, Uio.kernelSide_of_write hrw]
  exact overlay_outside hout

/-- What an operation leaves behind, byte by byte where it does not write. -/
structure FileOp.Effect (op : FileOp) (s t : Sfs) : Prop where
  acct : t.Acct
  table : SameTable s t
  live : ∀ ino, t.Live ino ↔ s.Live ino
  other : ∀ ino, ino ≠ (s.sv op.vnode).ino → s.Live ino → t.file ino = s.file ino
  links : (t.file (s.sv op.vnode).ino).links = (s.file (s.sv op.vnode).ino).links
  byte : ∀ h ∈ s.vnodes, ∀ p, ¬ op.Writes h p →
    t.fileByte (s.sv h).ino p = if op.Clears h p then 0 else s.fileByte (s.sv h).ino p

theorem FileOp.Effect.of_own (op : FileOp) (ha : s.Acct) (hg : op.vnode ∈ s.vnodes) (hacct : t.Acct)
    (htable : SameTable s t) (hlive : ∀ ino, t.Live ino ↔ s.Live ino)
    (hother : ∀ ino, ino ≠ (s.sv op.vnode).ino → s.Live ino → t.file ino = s.file ino)
    (hlinks : (t.file (s.sv op.vnode).ino).links = (s.file (s.sv op.vnode).ino).links)
    (hown : ∀ p, ¬ op.Writes op.vnode p → t.fileByte (s.sv op.vnode).ino p =
      if op.Clears op.vnode p then 0 else s.fileByte (s.sv op.vnode).ino p) : op.Effect s t := by
  refine ⟨hacct, htable, hlive, hother, hlinks, fun h hh p hno => ?_⟩
  by_cases heq : op.vnode = h
  · subst heq
    exact hown p hno
  · have hne : (s.sv h).ino ≠ (s.sv op.vnode).ino := fun hino => heq (ha.unique h hh op.vnode hg hino).symm
    rw [if_neg fun hc => heq hc.vnode_eq]
    exact congrFun (congrArg SfsFile.bytes (hother _ hne (live_of_mem hh))) p

/-- **An operation on a file** does not stop the machine on a volume of at most 2²³ blocks, and it changes the bytes that
it writes and those of blocks that it gives back. -/
theorem FileOp.effect {op : FileOp} (ha : s.Acct) (hsmall : s.nblocks ≤ 2 ^ 23) (hop : op.Legal s) :
    Ends op.call s (fun _ t => op.Effect s t) fun _ t => op.Effect s t := by
  cases op with
  | io h u =>
    obtain ⟨⟨hh, hne⟩, hroom⟩ := hop
    have hready : Ready h (s.sv h).ino ⟨s, u⟩ := ⟨ha, hh, rfl, hne, hsmall, hroom⟩
    have heffect : ∀ {r : Request Sfs} {f : SfsFile}, Rewritten s r.dev (s.sv h).ino f →
        f.links = (s.file (s.sv h).ino).links →
        (∀ p, ¬ (FileOp.io h u).Writes h p → r.dev.fileByte (s.sv h).ino p = s.fileByte (s.sv h).ino p) →
        (FileOp.io h u).Effect s r.dev := by
      intro r f hr hlinks hbyte
      apply FileOp.Effect.of_own (.io h u) ha hh hr.acct hr.table hr.live hr.other
        ((congrArg SfsFile.links hr.file).trans hlinks)
      intro p hno
      rw [if_neg fun hc => hc.elim]
      exact hbyte p hno
    unfold call fileIo
    rw [ends_bind, ends_onLarger]
    cases hrw : u.rw with
    | read =>
      apply (io_read_ends hready hrw).mono
      · rintro _ r ⟨hr, -⟩
        rw [ends_pure]
        exact heffect hr rfl fun p _ => congrFun (congrArg SfsFile.bytes hr.file) p
      · rintro e r ⟨-, m, -, -, hr, -⟩
        exact heffect hr rfl fun p _ => congrFun (congrArg SfsFile.bytes hr.file) p
    | write =>
      have hout : ∀ {a p : ℕ}, a ≤ u.resid → ¬ (FileOp.io h u).Writes h p →
          p < place u.offset ∨ place u.offset + a ≤ p := by
        intro a p hle hno
        by_contra hin
        exact hno ⟨rfl, hrw, by omega, by omega⟩
      apply (io_write_ends hready hrw).mono
      · rintro _ r ⟨hw, -⟩
        rw [ends_pure]
        exact heffect hw.dev rfl fun p hno => hw.byte hrw (hout (Nat.le_refl _) hno)
      · rintro e r ⟨a, m, ham, hm, -, hw, -⟩
        exact heffect hw.dev rfl fun p hno => hw.byte hrw (hout (ham.trans hm) hno)
  | truncate h len =>
    obtain ⟨hh, hne⟩ := hop
    apply (itrunc_ends ha hh hne len).mono _ fun _ _ => id
    rintro _ t ⟨htr, -⟩
    apply FileOp.Effect.of_own (.truncate h len) ha hh htr.cut.acct htr.cut.same.toSameTable
      (fun ino => htr.cut.same.live hne) htr.cut.same.file htr.cut.same.links
    intro p _
    rw [show (s.sv (FileOp.truncate h len).vnode).ino = (s.sv h).ino from rfl, htr.byte ha (live_of_mem hh) p]
    exact if_congr (and_iff_right rfl).symm rfl rfl

theorem fileStep_eq_some {op : FileOp} (hstep : s.fileStep op = some t) : op.Legal s ∧ (op.call s).state? = some t := by
  unfold fileStep at hstep
  by_cases hop : op.Legal s
  · rw [if_pos hop] at hstep
    exact ⟨hop, hstep⟩
  · rw [if_neg hop] at hstep
    exact nomatch hstep

theorem FileOp.effect_of_step {op : FileOp} (ha : s.Acct) (hsmall : s.nblocks ≤ 2 ^ 23)
    (hstep : s.fileStep op = some t) : op.Effect s t :=
  (FileOp.effect ha hsmall (fileStep_eq_some hstep).1).of_state? (fileStep_eq_some hstep).2

/-- **One byte after any operations**, by induction on them: if none of them writes it, it is what it was, or 0 if a
truncation has given its block back. -/
theorem byte_after_ops (ha : s.Acct) (hsmall : s.nblocks ≤ 2 ^ 23) (hh : h ∈ s.vnodes) (ops : List FileOp)
    (hrun : follow fileStep ops s = some t) (hmiss : ∀ op ∈ ops, ¬ op.Writes h p) :
    t.Acct ∧ SameTable s t ∧ t.fileByte (s.sv h).ino p =
      if ∃ op ∈ ops, op.Clears h p then 0 else s.fileByte (s.sv h).ino p := by
  induction ops generalizing s with
  | nil =>
    obtain rfl := Option.some.inj hrun
    exact ⟨ha, .refl s, by simp⟩
  | cons op ops ih =>
    obtain ⟨v, hstep, hrest⟩ := Option.bind_eq_some_iff.mp hrun
    have heff := FileOp.effect_of_step ha hsmall hstep
    have hmem : h ∈ v.vnodes := heff.table.vnodes ▸ hh
    obtain ⟨hacct, htable, hbyte⟩ := ih heff.acct (heff.table.nblocks ▸ hsmall) hmem hrest
      fun op' hop' => hmiss op' (List.mem_cons_of_mem op hop')
    refine ⟨hacct, heff.table.trans htable, ?_⟩
    rw [heff.table.ino h] at hbyte
    rw [hbyte, heff.byte h hh p (hmiss op List.mem_cons_self)]
    by_cases hlater : ∃ op' ∈ ops, op'.Clears h p
    · have hsome : ∃ op' ∈ op :: ops, op'.Clears h p := by
        obtain ⟨op', hop', hc⟩ := hlater
        exact ⟨op', List.mem_cons_of_mem op hop', hc⟩
      rw [if_pos hlater, if_pos hsome]
    · rw [if_neg hlater]
      refine if_congr ?_ rfl rfl
      simp only [List.mem_cons, exists_eq_or_imp, hlater, or_false]

/-! ### Reading the byte -/

/-- `sfs_read` of byte `p` returns the byte `b`. -/
def ReadsByte (s : Sfs) (h p : ℕ) (b : UInt8) : Prop :=
  ∃ r t, fileIo h (Uio.readByte p) s = .ok r t ∧ r.2.uio.resid = 0 ∧ r.2.uio.buf 0 = b

theorem readsByte_iff {b : UInt8} (ha : s.Acct) (hsmall : s.nblocks ≤ 2 ^ 23) (hfile : s.IsFile h)
    (hsize : p < (s.file (s.sv h).ino).size) :
    ReadsByte s h p b ↔ p < 73216 ∧ s.fileByte (s.sv h).ino p = b := by
  have hready : Ready h (s.sv h).ino ⟨s, Uio.readByte p⟩ := ⟨ha, hfile.1, rfl, hfile.2, hsmall, Nat.le_refl 1⟩
  have hends := io_read_ends hready rfl
  have hlen : readLen (Uio.readByte p) (s.file (s.sv h).ino).size = 1 := by
    simp only [readLen, Uio.readByte]
    omega
  have hplace : place (Uio.readByte p).offset = p := by
    have hlt : (s.file (s.sv h).ino).size < 2 ^ 32 := load32_lt ..
    simp only [place, Uio.readByte]
    omega
  rw [hlen, hplace] at hends
  -- the byte of a request that has been served
  have hbyte : ∀ w, (Uio.readByte p).Advanced (s.fileByte (s.sv h).ino) p 1 w →
      w.resid = 0 ∧ w.buf 0 = s.fileByte (s.sv h).ino p := by
    intro w hw
    obtain ⟨iov, rfl⟩ := hw.eq
    exact ⟨rfl, overlay_inside (Nat.le_refl 0) Nat.one_pos⟩
  unfold ReadsByte fileIo
  constructor
  · rintro ⟨r, t, hok, -, hb⟩
    obtain ⟨hio, -⟩ := onLarger_ok_iff.mp hok
    obtain ⟨-, hw, hfits⟩ := hends.of_ok hio
    have := hfits Nat.one_ne_zero
    exact ⟨by omega, (hbyte _ hw).2.symm.trans hb⟩
  · rintro ⟨hp, rfl⟩
    cases hio : device.io h ⟨s, Uio.readByte p⟩ with
    | ok a q =>
      obtain ⟨-, hw, -⟩ := hends.of_ok hio
      exact ⟨(a, q), q.dev, onLarger_ok_iff.mpr ⟨hio, rfl⟩, hbyte _ hw⟩
    | fail e q =>
      obtain ⟨-, m, -, hlt, -, -, hexcuse⟩ := hends.of_fail hio
      rcases hexcuse with ⟨-, hrw⟩ | ⟨-, hbad⟩ | ⟨-, hbig⟩
      · exact nomatch hrw
      · exact absurd (Uio.readByte_good p) hbad
      · have := hlt Nat.one_ne_zero
        rw [hplace] at hbig
        omega
    | stop x => exact (hends.not_stop hio).elim

/-- **A byte that has been cut off is read as 0 later** exactly if it was 0 before, or a truncation has given its block
back; and if it lies where a file can have bytes at all. -/
theorem cut_byte_reads_zero_iff {ops : List FileOp} (ha : s.Acct) (hsmall : s.nblocks ≤ 2 ^ 23) (hfile : s.IsFile h)
    (hrun : follow fileStep (.truncate h len :: ops) s = some t) (hmiss : ∀ op ∈ ops, ¬ op.Writes h p)
    (hsize : p < (t.file (s.sv h).ino).size) :
    ReadsByte t h p 0 ↔
      p < 73216 ∧ (s.fileByte (s.sv h).ino p = 0 ∨ ∃ op ∈ .truncate h len :: ops, FileOp.Clears h p op) := by
  obtain ⟨hacct, htable, hbyte⟩ := byte_after_ops ha hsmall hfile.1 (.truncate h len :: ops) hrun (p := p) (by
    intro op hop
    rcases List.mem_cons.mp hop with rfl | hlater
    · exact id
    · exact hmiss op hlater)
  have hino : (t.sv h).ino = (s.sv h).ino := htable.ino h
  have hfile' : t.IsFile h := ⟨htable.vnodes ▸ hfile.1, hino ▸ hfile.2⟩
  rw [readsByte_iff hacct (htable.nblocks ▸ hsmall) hfile' (hino ▸ hsize), hino, hbyte]
  refine and_congr_right fun _ => ?_
  by_cases hc : ∃ op ∈ .truncate h len :: ops, FileOp.Clears h p op
  · rw [if_pos hc]
    exact iff_of_true rfl (.inr hc)
  · rw [if_neg hc, or_iff_left hc]

theorem exists_byte_and_ops (p : ℕ) (ops : List FileOp) (test : Sfs → Bool)
    (hp : ((follow dirStep [.creat 0 (letter 97 (by decide)) false .plenty] (emptyVolume 32)).any fun s₀ =>
      (s₀.fileStep (.io 1 (.writeByte p 7))).any fun s =>
        decide (s₀.nblocks ≤ 2 ^ 23 ∧ s.IsFile 1 ∧ (s.file (s.sv 1).ino).size = p + 1 ∧
          s.fileByte (s.sv 1).ino p = 7) && (follow fileStep ops s).any test) = true) :
    ∃ s t : Sfs, s.Acct ∧ s.nblocks ≤ 2 ^ 23 ∧ s.IsFile 1 ∧ (s.file (s.sv 1).ino).size = p + 1 ∧
      s.fileByte (s.sv 1).ino p = 7 ∧ follow fileStep ops s = some t ∧ test t = true := by
  obtain ⟨s₀, hs₀, hp⟩ := exists_reaches_of_follow dirStep (· = emptyVolume 32) (emptyVolume 32) _ _ rfl hp
  obtain ⟨s, hstep, hp⟩ := (Option.any_eq_true _ _).mp hp
  obtain ⟨hfacts, hp⟩ := Bool.and_eq_true_iff.mp hp
  obtain ⟨hsmall, hfile, hsize, hbyte⟩ := of_decide_eq_true hfacts
  obtain ⟨t, hrun, htest⟩ := (Option.any_eq_true _ _).mp hp
  have hstart : (emptyVolume 32).Consistent := consistent_emptyVolume (by decide) (by decide)
  have hc : s₀.Consistent := hs₀.invariant (fun _ heq => heq ▸ hstart) fun _ _ _ hc hstep => hc.dirStep hstep
  have heff := FileOp.effect_of_step hc.toAcct hsmall hstep
  exact ⟨s, t, heff.acct, heff.table.nblocks ▸ hsmall, hfile, hsize, hbyte, hrun, htest⟩

/-- The byte 600 is cut off with its block; when the file is longer again, it is read as 0. -/
theorem cut_byte_reads_zero_in_lost_block :
    ∃ s t : Sfs, s.IsFile 1 ∧ s.fileByte (s.sv 1).ino 600 = 7 ∧
      follow fileStep [.truncate 1 512, .io 1 (.writeByte 700 9)] s = some t ∧ ReadsByte t 1 600 0 := by
  obtain ⟨s, t, ha, hsmall, hfile, -, hbyte, hrun, htest⟩ :=
    exists_byte_and_ops 600 [.truncate 1 512, .io 1 (.writeByte 700 9)]
      (fun t => decide (600 < (t.file (t.sv 1).ino).size)) (by decide +kernel)
  have hmiss : ∀ op ∈ [FileOp.io 1 (.writeByte 700 9)], ¬ op.Writes 1 600 := by
    intro op hop hw
    obtain rfl := List.mem_singleton.mp hop
    exact absurd hw.2.2.1 (by decide)
  have htable := (byte_after_ops ha hsmall hfile.1 _ hrun (p := 600) (by
    intro op hop
    rcases List.mem_cons.mp hop with rfl | hlater
    · exact id
    · exact hmiss op hlater)).2.1
  have hsize : 600 < (t.file (s.sv 1).ino).size := htable.ino 1 ▸ of_decide_eq_true htest
  refine ⟨s, t, hfile, hbyte, hrun, (cut_byte_reads_zero_iff ha hsmall hfile hrun hmiss hsize).mpr ⟨by decide, ?_⟩⟩
  exact .inr ⟨_, List.mem_cons_self, rfl, by decide⟩

/-- The byte 100 is cut off by a truncation to 10 bytes; when the file is longer again, it is back. -/
theorem cut_byte_comes_back :
    ∃ s t : Sfs, s.Acct ∧ s.IsFile 1 ∧ (s.file (s.sv 1).ino).size = 101 ∧
      follow fileStep [.truncate 1 10, .io 1 (.writeByte 200 9)] s = some t ∧ ReadsByte t 1 100 7 := by
  obtain ⟨s, t, ha, -, hfile, hsize, -, hrun, htest⟩ :=
    exists_byte_and_ops 100 [.truncate 1 10, .io 1 (.writeByte 200 9)]
      (fun t => (fileIo 1 (.readByte 100) t).returnedIn fun r _ => r.2.uio.resid == 0 && r.2.uio.buf 0 == 7)
      (by decide +kernel)
  obtain ⟨r, t', hread, hr⟩ := Reply.ok_of_returnedIn htest
  obtain ⟨hresid, hbuf⟩ := Bool.and_eq_true_iff.mp hr
  exact ⟨s, t, ha, hfile, hsize, hrun, r, t', hread, eq_of_beq hresid, eq_of_beq hbuf⟩

end Sfs

end Os161Kernel
