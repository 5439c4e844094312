import SearchSyscall.ReadWrite.Llseek
import SearchSyscall.ReadWrite.Transfer
import SearchSyscall.ReadWrite.Sendfile

/-!
# The system calls

The system calls of `fs/read_write.c` on the calling process: `lseek` and `llseek` (lines
235-290), `read`, `write`, `pread64` and `pwrite64` (lines 465-548), `readv`, `writev`, `preadv`
and `pwritev` (lines 793-889), and `sendfile` and `sendfile64` (lines 979-1013).  Each finds the
open file its descriptor names (`fget_light`); `read`, `write`, `readv` and `writev` transfer at
the file's position and store the moved position back (`file_pos_write`), the positioned calls at a
position of their own.

`Call` is one system call with its arguments as the C prototypes type them, `step` makes it, and
`run` makes a sequence of them.  The kernel modelled has a 64-bit `long`: `off_t` is as wide as
`loff_t`, so the `-EOVERFLOW` test of `lseek` never fires, and `pos_from_hilo` shifts the high word
out entirely (`posFromHilo_eq`).
-/

namespace SearchSyscall

variable {W : Type}

/-- Lines 249-251 of `lseek`: the value `res` of `vfs_llseek` stored in the `off_t` `retval`, or
`-EOVERFLOW` if it does not fit. -/
def lseekRetval (res : Int) : Int :=
  let retval := toLoff res
  if res ≠ retval then eoverflow.neg else retval

/-- `lseek(fd, offset, origin)` (lines 235-256). -/
def sysLseek (K : Kernel W) (s : Sys W) (fd : Nat) (offset : Int) (origin : Nat) : Int × Sys W :=
  match s.fget fd with
  | none => (ebadf.neg, s)
  | some id =>
    if origin ≤ seekMax then
      let r := vfsLlseek K s.world (s.files id) offset origin
      (lseekRetval r.1, s.setFile id r.2)
    else (einval.neg, s)

/-- The offset `llseek` seeks to (line 277): `((loff_t) offset_high << 32) | offset_low`, the shift
wrapping in 64 bits and the `|` taken unsigned. -/
def llseekOffset (offsetHigh offsetLow : UInt64) : Int :=
  toLoff (toSize (toLoff (toLoff offsetHigh.toNat * 2 ^ 32)) ||| offsetLow.toNat)

/-- `llseek(fd, offset_high, offset_low, result, origin)` (lines 259-290): on a seek to a
non-negative position the position is copied to `result` and the call returns 0; otherwise it
returns the seek's value as an `int`. -/
def sysLlseek (K : Kernel W) (s : Sys W) (fd : Nat) (offsetHigh offsetLow : UInt64) (result : Int)
    (origin : Nat) : Int × Sys W :=
  match s.fget fd with
  | none => (ebadf.neg, s)
  | some id =>
    if origin > seekMax then (einval.neg, s)
    else
      let r := vfsLlseek K s.world (s.files id) (llseekOffset offsetHigh offsetLow) origin
      let s := s.setFile id r.2
      if r.1 ≥ 0 then
        match K.putUser s.world result r.1 with
        | none => (efault.neg, s)
        | some w => (0, s.setWorld w)
      else (toCInt r.1, s)

/-- `read(fd, buf, count)` or `write(fd, buf, count)` (lines 465-498): `vfs_read` or `vfs_write` at
the file's position, which is then stored back. -/
def sysReadWrite (K : Kernel W) (rw : Rw) (s : Sys W) (fd : Nat) (buf : Int) (count : UInt64) :
    Int × Sys W :=
  match s.fget fd with
  | none => (ebadf.neg, s)
  | some id =>
    let r := vfsReadWrite K rw s id buf count (s.files id).pos
    (r.1, r.2.2.setPos id r.2.1)

/-- `read(fd, buf, count)` (lines 465-480). -/
def sysRead (K : Kernel W) (s : Sys W) (fd : Nat) (buf : Int) (count : UInt64) : Int × Sys W :=
  sysReadWrite K .read s fd buf count

/-- `write(fd, buf, count)` (lines 482-498). -/
def sysWrite (K : Kernel W) (s : Sys W) (fd : Nat) (buf : Int) (count : UInt64) : Int × Sys W :=
  sysReadWrite K .write s fd buf count

/-- `pread64(fd, buf, count, pos)` or `pwrite64` (lines 500-548): `vfs_read` or `vfs_write` at
`pos`, on a file that allows it (`FMODE_PREAD`, `FMODE_PWRITE`). -/
def sysPreadPwrite (K : Kernel W) (rw : Rw) (s : Sys W) (fd : Nat) (buf : Int) (count : UInt64)
    (pos : Int) : Int × Sys W :=
  if pos < 0 then (einval.neg, s)
  else match s.fget fd with
    | none => (ebadf.neg, s)
    | some id =>
      if hasFlag (s.files id).mode rw.positionedBit = false then (espipe.neg, s)
      else
        let r := vfsReadWrite K rw s id buf count pos
        (r.1, r.2.2)

/-- `pread64(fd, buf, count, pos)` (lines 500-519). -/
def sysPread64 (K : Kernel W) (s : Sys W) (fd : Nat) (buf : Int) (count : UInt64) (pos : Int) :
    Int × Sys W :=
  sysPreadPwrite K .read s fd buf count pos

/-- `pwrite64(fd, buf, count, pos)` (lines 529-548). -/
def sysPwrite64 (K : Kernel W) (s : Sys W) (fd : Nat) (buf : Int) (count : UInt64) (pos : Int) :
    Int × Sys W :=
  sysPreadPwrite K .write s fd buf count pos

/-- Lines 808-810 of `readv` (829-831 of `writev`, 860-862 of `preadv`, 885-887 of `pwritev`):
`rchar` or `wchar` if bytes moved, `syscr` or `syscw` in any case. -/
def vectorAccounted (rw : Rw) (r : Int × Sys W) : Int × Sys W :=
  (r.1, (if 0 < r.1 then r.2.addChars rw r.1 else r.2).incCalls rw)

@[simp] theorem files_vectorAccounted (rw : Rw) (r : Int × Sys W) :
    (vectorAccounted rw r).2.files = r.2.files := by
  unfold vectorAccounted
  split_ifs <;> simp

/-- `readv(fd, vec, vlen)` or `writev(fd, vec, vlen)` (lines 793-833): `vfs_readv` or `vfs_writev`
at the file's position, which is stored back; the call is accounted even on a descriptor that is not
open. -/
def sysReadvWritev (K : Kernel W) (rw : Rw) (s : Sys W) (fd : Nat) (vec : Int) (vlen : Nat) :
    Int × Sys W :=
  vectorAccounted rw <|
    match s.fget fd with
    | none => (ebadf.neg, s)
    | some id =>
      let r := vfsReadvWritev K rw s id vec vlen (s.files id).pos
      (r.1, r.2.2.setPos id r.2.1)

/-- `readv(fd, vec, vlen)` (lines 793-812). -/
def sysReadv (K : Kernel W) (s : Sys W) (fd : Nat) (vec : Int) (vlen : Nat) : Int × Sys W :=
  sysReadvWritev K .read s fd vec vlen

/-- `writev(fd, vec, vlen)` (lines 814-833). -/
def sysWritev (K : Kernel W) (s : Sys W) (fd : Nat) (vec : Int) (vlen : Nat) : Int × Sys W :=
  sysReadvWritev K .write s fd vec vlen

/-- `HALF_LONG_BITS`, half of `BITS_PER_LONG`. -/
def halfLongBits : Nat := 32

/-- `pos_from_hilo(high, low)` (lines 835-839):
`(((loff_t)high << HALF_LONG_BITS) << HALF_LONG_BITS) | low`. -/
def posFromHilo (high low : UInt64) : Int :=
  toLoff (toSize (toLoff (toLoff (toLoff high.toNat * 2 ^ halfLongBits) * 2 ^ halfLongBits)) |||
    low.toNat)

/-- `preadv(fd, vec, vlen, pos_l, pos_h)` or `pwritev` (lines 841-889): `vfs_readv` or `vfs_writev`
at `pos_from_hilo(pos_h, pos_l)`, on a file that allows it; the call is accounted unless the
position is negative. -/
def sysPreadvPwritev (K : Kernel W) (rw : Rw) (s : Sys W) (fd : Nat) (vec : Int) (vlen : Nat)
    (posL posH : UInt64) : Int × Sys W :=
  let pos := posFromHilo posH posL
  if pos < 0 then (einval.neg, s)
  else vectorAccounted rw <|
    match s.fget fd with
    | none => (ebadf.neg, s)
    | some id =>
      if hasFlag (s.files id).mode rw.positionedBit = false then (espipe.neg, s)
      else
        let r := vfsReadvWritev K rw s id vec vlen pos
        (r.1, r.2.2)

/-- `preadv(fd, vec, vlen, pos_l, pos_h)` (lines 841-864). -/
def sysPreadv (K : Kernel W) (s : Sys W) (fd : Nat) (vec : Int) (vlen : Nat) (posL posH : UInt64) :
    Int × Sys W :=
  sysPreadvPwritev K .read s fd vec vlen posL posH

/-- `pwritev(fd, vec, vlen, pos_l, pos_h)` (lines 866-889). -/
def sysPwritev (K : Kernel W) (s : Sys W) (fd : Nat) (vec : Int) (vlen : Nat) (posL posH : UInt64) :
    Int × Sys W :=
  sysPreadvPwritev K .write s fd vec vlen posL posH

/-! ### Sequences of calls -/

/-- A system call of this file, its arguments typed as the C prototypes type them: descriptors and
origins unsigned, counts `size_t`, user pointers addresses, `loff_t` and `off_t` offsets `Loff`,
and the `offset` pointer of `sendfile` null or an address.  A descriptor is the value the caller
passed, of any width: `fget` keeps the 32 bits `fget_light` reads. -/
inductive Call where
  | lseek (fd : Nat) (offset : Loff) (origin : Nat)
  | llseek (fd : Nat) (offsetHigh offsetLow : UInt64) (result : Int) (origin : Nat)
  | read (fd : Nat) (buf : Int) (count : UInt64)
  | write (fd : Nat) (buf : Int) (count : UInt64)
  | pread64 (fd : Nat) (buf : Int) (count : UInt64) (pos : Loff)
  | pwrite64 (fd : Nat) (buf : Int) (count : UInt64) (pos : Loff)
  | readv (fd : Nat) (vec : Int) (vlen : Nat)
  | writev (fd : Nat) (vec : Int) (vlen : Nat)
  | preadv (fd : Nat) (vec : Int) (vlen : Nat) (posL posH : UInt64)
  | pwritev (fd : Nat) (vec : Int) (vlen : Nat) (posL posH : UInt64)
  | sendfile (outFd inFd : Nat) (offset : Option Int) (count : UInt64)
  | sendfile64 (outFd inFd : Nat) (offset : Option Int) (count : UInt64)

/-- Make one system call: its value and the process after. -/
def step (K : Kernel W) (s : Sys W) : Call → Int × Sys W
  | .lseek fd offset origin => sysLseek K s fd offset.val origin
  | .llseek fd high low result origin => sysLlseek K s fd high low result origin
  | .read fd buf count => sysRead K s fd buf count
  | .write fd buf count => sysWrite K s fd buf count
  | .pread64 fd buf count pos => sysPread64 K s fd buf count pos.val
  | .pwrite64 fd buf count pos => sysPwrite64 K s fd buf count pos.val
  | .readv fd vec vlen => sysReadv K s fd vec vlen
  | .writev fd vec vlen => sysWritev K s fd vec vlen
  | .preadv fd vec vlen posL posH => sysPreadv K s fd vec vlen posL posH
  | .pwritev fd vec vlen posL posH => sysPwritev K s fd vec vlen posL posH
  | .sendfile outFd inFd offset count => sysSendfile K s outFd inFd offset count
  | .sendfile64 outFd inFd offset count => sysSendfile64 K s outFd inFd offset count

/-- Make a sequence of system calls, one after the other. -/
def run (K : Kernel W) : Sys W → List Call → Sys W
  | s, [] => s
  | s, c :: cs => run K (step K s c).2 cs

@[simp] theorem run_nil (K : Kernel W) (s : Sys W) : run K s [] = s := rfl

@[simp] theorem run_cons (K : Kernel W) (s : Sys W) (c : Call) (cs : List Call) :
    run K s (c :: cs) = run K (step K s c).2 cs := rfl

/-! ### Offsets made of two words -/

/-- A value shifted left by 64 bits in two steps leaves nothing in a 64-bit word. -/
private theorem toSize_toLoff_shift_shift (x : Nat) :
    toSize (toLoff (toLoff (toLoff x * 2 ^ 32) * 2 ^ 32)) = 0 := by
  unfold toSize toLoff
  omega

/-- On a 64-bit `long` the high word of `pos_from_hilo` is shifted out entirely: the position is the
low word, as a `loff_t`. -/
theorem posFromHilo_eq (high low : UInt64) : posFromHilo high low = toLoff low.toNat := by
  rw [posFromHilo, halfLongBits, toSize_toLoff_shift_shift, Nat.zero_or]

/-! ### What the calls leave alone -/

/-- `pread64` and `pwrite64` leave the open files as they were. -/
theorem files_sysPreadPwrite (K : Kernel W) (rw : Rw) (s : Sys W) (fd : Nat) (buf : Int)
    (count : UInt64) (pos : Int) : (sysPreadPwrite K rw s fd buf count pos).2.files = s.files := by
  unfold sysPreadPwrite
  split_ifs
  · rfl
  · split
    · rfl
    · split_ifs
      · rfl
      · exact files_vfsReadWrite K rw s _ buf count pos

/-- `preadv` and `pwritev` leave the open files as they were. -/
theorem files_sysPreadvPwritev (K : Kernel W) (rw : Rw) (s : Sys W) (fd : Nat) (vec : Int)
    (vlen : Nat) (posL posH : UInt64) :
    (sysPreadvPwritev K rw s fd vec vlen posL posH).2.files = s.files := by
  by_cases hneg : posFromHilo posH posL < 0
  · rw [sysPreadvPwritev, if_pos hneg]
  · rw [sysPreadvPwritev, if_neg hneg, files_vectorAccounted]
    split
    · rfl
    · split
      · rfl
      · exact files_vfsReadvWritev K rw s _ vec vlen _

/-- Whether the call transfers at a position of its own: `pread64`, `pwrite64`, `preadv`,
`pwritev`. -/
def Call.positioned : Call → Bool
  | .pread64 .. | .pwrite64 .. | .preadv .. | .pwritev .. => true
  | _ => false

/-- A call that transfers at a position of its own never moves a file position, whatever it does:
the open files after it are those before. -/
theorem step_positioned_files (K : Kernel W) (s : Sys W) {c : Call} (h : c.positioned = true) :
    (step K s c).2.files = s.files := by
  cases c <;> simp only [Call.positioned, Bool.false_eq_true] at h <;>
    simp only [step, sysPread64, sysPwrite64, sysPreadv, sysPwritev]
  · exact files_sysPreadPwrite K .read s _ _ _ _
  · exact files_sysPreadPwrite K .write s _ _ _ _
  · exact files_sysPreadvPwritev K .read s _ _ _ _ _
  · exact files_sysPreadvPwritev K .write s _ _ _ _ _

theorem step_positioned_files_pread :
    (Call.pread64 3 0 4096 ⟨0, by unfold InLoff; omega⟩).positioned = true ∧
      (step Kernel.quiet Sys.quiet (.pread64 3 0 4096 ⟨0, by unfold InLoff; omega⟩)).2.files =
        Sys.quiet.files :=
  have h : (Call.pread64 3 0 4096 ⟨0, by unfold InLoff; omega⟩).positioned = true := rfl
  ⟨h, step_positioned_files Kernel.quiet Sys.quiet h⟩

/-- On a 64-bit `long`, `preadv` and `pwritev` do not read their high word: the call is the same
whatever `pos_h` is. -/
theorem sysPreadvPwritev_high (K : Kernel W) (rw : Rw) (s : Sys W) (fd : Nat) (vec : Int)
    (vlen : Nat) (posL posH : UInt64) :
    sysPreadvPwritev K rw s fd vec vlen posL posH = sysPreadvPwritev K rw s fd vec vlen posL 0 := by
  unfold sysPreadvPwritev
  rw [posFromHilo_eq, posFromHilo_eq]

/-- For two 32-bit words, the offset `llseek` seeks to is the 64-bit value
`offset_high:offset_low`, as a `loff_t`. -/
theorem llseekOffset_eq {high low : UInt64} (hh : high.toNat < 2 ^ 32) (hl : low.toNat < 2 ^ 32) :
    llseekOffset high low = toLoff (high.toNat * 2 ^ 32 + low.toNat : Nat) := by
  have hs : toSize (toLoff (toLoff high.toNat * 2 ^ 32)) = 2 ^ 32 * high.toNat := by
    unfold toSize toLoff
    omega
  rw [llseekOffset, hs, ← Nat.mul_add_lt_is_or hl, Nat.mul_comm]

theorem llseekOffset_eq_words :
    (1 : UInt64).toNat < 2 ^ 32 ∧ (7 : UInt64).toNat < 2 ^ 32 ∧
      llseekOffset 1 7 = toLoff ((1 : UInt64).toNat * 2 ^ 32 + (7 : UInt64).toNat : Nat) :=
  have h1 : (1 : UInt64).toNat < 2 ^ 32 := by decide
  have h7 : (7 : UInt64).toNat < 2 ^ 32 := by decide
  ⟨h1, h7, llseekOffset_eq h1 h7⟩

/-! ### Seeking through `lseek` -/

theorem sysLseek_cases (K : Kernel W) (s : Sys W) (fd : Nat) (offset : Int) (origin : Nat) :
    (∃ e < 0, sysLseek K s fd offset origin = (e, s)) ∨
      ∃ id, s.fget fd = some id ∧ origin ≤ seekMax ∧
        sysLseek K s fd offset origin =
          (lseekRetval (vfsLlseek K s.world (s.files id) offset origin).1,
            s.setFile id (vfsLlseek K s.world (s.files id) offset origin).2) := by
  unfold sysLseek
  split
  · exact .inl ⟨_, Errno.neg_lt_zero _, rfl⟩
  · next id hid =>
    split
    · next ho => exact .inr ⟨id, hid, ho, rfl⟩
    · exact .inl ⟨_, Errno.neg_lt_zero _, rfl⟩

theorem sysLseek_of_fget (K : Kernel W) {s : Sys W} {fd id : Nat} (hid : s.fget fd = some id)
    (offset : Int) {origin : Nat} (ho : origin ≤ seekMax) :
    sysLseek K s fd offset origin =
      (lseekRetval (vfsLlseek K s.world (s.files id) offset origin).1,
        s.setFile id (vfsLlseek K s.world (s.files id) offset origin).2) := by
  unfold sysLseek
  rw [hid]
  exact if_pos ho

/-- `llseek` leaves the process as it was, or moves the file `fd` names and may write `result`. -/
theorem sysLlseek_cases (K : Kernel W) (s : Sys W) (fd : Nat) (high low : UInt64) (result : Int)
    (origin : Nat) :
    (sysLlseek K s fd high low result origin).2 = s ∨
      ∃ id w, s.fget fd = some id ∧ (sysLlseek K s fd high low result origin).2 =
        (s.setFile id (vfsLlseek K s.world (s.files id) (llseekOffset high low) origin).2).setWorld w := by
  unfold sysLlseek
  split
  · exact .inl rfl
  next id hid =>
  split_ifs
  · exact .inl rfl
  · dsimp only
    split_ifs
    · split
      · exact .inr ⟨id, s.world, hid, rfl⟩
      · next w _ => exact .inr ⟨id, w, hid, rfl⟩
    · exact .inr ⟨id, s.world, hid, rfl⟩

private theorem lseekRetval_of_inLoff {r : Int} (h : InLoff r) : lseekRetval r = r := by
  rw [lseekRetval, toLoff_of_inLoff h, if_neg (not_not.mpr rfl)]

private theorem lseekRetval_neg {r : Int} (h : r < 0) : lseekRetval r < 0 := by
  unfold lseekRetval
  dsimp only
  split_ifs with hne
  · exact Errno.neg_lt_zero _
  · exact (not_not.mp hne) ▸ h

theorem lseekRetval_of_nonneg {r : Int} (h : 0 ≤ lseekRetval r) : lseekRetval r = r ∧ InLoff r := by
  unfold lseekRetval at h ⊢
  dsimp only at h ⊢
  split_ifs at h ⊢ with hne
  · exact absurd h (Int.not_le.mpr (Errno.neg_lt_zero _))
  · have hr : toLoff r = r := (not_not.mp hne).symm
    exact ⟨hr, hr ▸ inLoff_toLoff r⟩

/-- On a file with signed offsets at a position in `[0, 2^63)`, `lseek` either fails, returning a
negative value and changing nothing, or returns the new position, in `[0, 2^63)`, having moved the
file there. -/
theorem sysLseek_result (K : Kernel W) (s : Sys W) (fd : Nat) {offset : Int} (hoff : InLoff offset)
    (origin : Nat) {id : Nat} (hid : s.fget fd = some id) (hs : unsignedOffsets (s.files id) = false)
    (hpos : 0 ≤ (s.files id).pos ∧ (s.files id).pos < 2 ^ 63) :
    (sysLseek K s fd offset origin).1 < 0 ∧ (sysLseek K s fd offset origin).2 = s ∨
      0 ≤ (sysLseek K s fd offset origin).1 ∧ (sysLseek K s fd offset origin).1 < 2 ^ 63 ∧
        (sysLseek K s fd offset origin).2 =
          s.setFile id ((s.files id).seekTo (sysLseek K s fd offset origin).1) := by
  rcases sysLseek_cases K s fd offset origin with ⟨e, he, h⟩ | ⟨id', hid', -, h⟩
  · exact .inl (h ▸ ⟨he, rfl⟩)
  obtain rfl : id' = id := Option.some_inj.mp (hid'.symm.trans hid)
  rw [h]
  rcases (vfsLlseek_seeks K s.world (s.files id') hoff origin).pos_range hs hpos with
    ⟨hr, he⟩ | ⟨h0, h1, he⟩
  · exact .inl ⟨lseekRetval_neg hr, by rw [he, Sys.setFile_self]⟩
  · rw [lseekRetval_of_inLoff ⟨by omega, h1⟩]
    exact .inr ⟨h0, h1, by rw [he]⟩

theorem sysLseek_result_quiet :
    InLoff 10 ∧ Sys.quiet.fget 3 = some 0 ∧ unsignedOffsets (Sys.quiet.files 0) = false ∧
      (0 ≤ (Sys.quiet.files 0).pos ∧ (Sys.quiet.files 0).pos < 2 ^ 63) ∧
      ((sysLseek Kernel.quiet Sys.quiet 3 10 seekSet).1 < 0 ∧
          (sysLseek Kernel.quiet Sys.quiet 3 10 seekSet).2 = Sys.quiet ∨
        0 ≤ (sysLseek Kernel.quiet Sys.quiet 3 10 seekSet).1 ∧
          (sysLseek Kernel.quiet Sys.quiet 3 10 seekSet).1 < 2 ^ 63 ∧
          (sysLseek Kernel.quiet Sys.quiet 3 10 seekSet).2 =
            Sys.quiet.setFile 0
              ((Sys.quiet.files 0).seekTo (sysLseek Kernel.quiet Sys.quiet 3 10 seekSet).1)) :=
  have hoff : InLoff 10 := by unfold InLoff; omega
  have hid : Sys.quiet.fget 3 = some 0 := rfl
  have hs : unsignedOffsets (Sys.quiet.files 0) = false := rfl
  have hpos : 0 ≤ (Sys.quiet.files 0).pos ∧ (Sys.quiet.files 0).pos < 2 ^ 63 := by
    simp only [Sys.quiet, OpenFile.quiet]; omega
  ⟨hoff, hid, hs, hpos, sysLseek_result Kernel.quiet Sys.quiet 3 hoff seekSet hid hs hpos⟩

/-- After an `lseek` that returns a position, `lseek(fd, 0, SEEK_CUR)` returns that position and
changes nothing. -/
theorem sysLseek_tell (K : Kernel W) (s : Sys W) (fd : Nat) {offset : Int} (hoff : InLoff offset)
    (origin : Nat) (hr : 0 ≤ (sysLseek K s fd offset origin).1) :
    sysLseek K (sysLseek K s fd offset origin).2 fd 0 seekCur =
      ((sysLseek K s fd offset origin).1, (sysLseek K s fd offset origin).2) := by
  rcases sysLseek_cases K s fd offset origin with ⟨e, he, h⟩ | ⟨id, hid, -, h⟩
  · rw [h] at hr; exact absurd hr (Int.not_le.mpr he)
  rw [h] at hr ⊢
  obtain ⟨hv, -⟩ := lseekRetval_of_nonneg hr
  have hr0 : 0 ≤ (vfsLlseek K s.world (s.files id) offset origin).1 := by rw [← hv]; exact hr
  -- the seek left the file at the position it returned, with the same method
  have hm : llseekMethod (vfsLlseek K s.world (s.files id) offset origin).2 = llseekMethod (s.files id) ∧
      (vfsLlseek K s.world (s.files id) offset origin).2.pos =
        (vfsLlseek K s.world (s.files id) offset origin).1 := by
    rcases vfsLlseek_seeks K s.world (s.files id) hoff origin with ⟨he, hr' | hr'⟩ | ⟨he, -, -⟩
    · exact absurd hr0 (Int.not_le.mpr hr')
    · rw [he]; exact ⟨rfl, hr'.symm⟩
    · rw [he]; exact ⟨llseekMethod_seekTo _ _, OpenFile.pos_seekTo _ _⟩
  have hno : llseekMethod (s.files id) ≠ .noLlseek := fun hn => by
    have he : (vfsLlseek K s.world (s.files id) offset origin).1 = espipe.neg := by
      rw [vfsLlseek, hn]; rfl
    exact absurd hr0 (by rw [he]; exact Int.not_le.mpr (Errno.neg_lt_zero espipe))
  have hid' : (s.setFile id (vfsLlseek K s.world (s.files id) offset origin).2).fget fd = some id := hid
  rw [sysLseek_of_fget K hid' 0 (by decide : seekCur ≤ seekMax)]
  simp only [Sys.world_setFile, Sys.files_setFile, if_true, Sys.setFile_setFile]
  rw [vfsLlseek, hm.1, callLlseek_tell K _ hno, hm.2]

theorem sysLseek_tell_quiet :
    InLoff 10 ∧ 0 ≤ (sysLseek Kernel.quiet Sys.quiet 3 10 seekSet).1 ∧
      sysLseek Kernel.quiet (sysLseek Kernel.quiet Sys.quiet 3 10 seekSet).2 3 0 seekCur =
        ((sysLseek Kernel.quiet Sys.quiet 3 10 seekSet).1,
          (sysLseek Kernel.quiet Sys.quiet 3 10 seekSet).2) :=
  have hoff : InLoff 10 := by unfold InLoff; omega
  have hr : 0 ≤ (sysLseek Kernel.quiet Sys.quiet 3 10 seekSet).1 := by decide
  ⟨hoff, hr, sysLseek_tell Kernel.quiet Sys.quiet 3 hoff seekSet hr⟩

/-- On a file with unsigned offsets whose method is `default_llseek`, `llseek` to a position at or
past `2^63`, a negative `loff_t`, moves the file there, yet takes the seek for a failure: it writes
nothing to `result` and returns the low 32 bits of the position as an `int`. -/
theorem sysLlseek_past_signed (K : Kernel W) (s : Sys W) (fd : Nat) (high low : UInt64)
    (result : Int) {id : Nat} (hid : s.fget fd = some id)
    (hm : llseekMethod (s.files id) = .defaultLlseek) (hu : unsignedOffsets (s.files id) = true)
    (hneg : llseekOffset high low < 0) :
    sysLlseek K s fd high low result seekSet =
      (toCInt (llseekOffset high low), s.setFile id ((s.files id).seekTo (llseekOffset high low))) := by
  have hseek : vfsLlseek K s.world (s.files id) (llseekOffset high low) seekSet =
      (llseekOffset high low, (s.files id).seekTo (llseekOffset high low)) := by
    rw [vfsLlseek, hm]
    show defaultLlseekSet (s.files id) (llseekOffset high low) = _
    rw [defaultLlseekSet, if_pos (.inr hu)]
  unfold sysLlseek
  rw [hid]
  dsimp only
  rw [if_neg (by decide), hseek]
  dsimp only
  rw [if_neg (Int.not_le.mpr hneg)]

/-- `OpenFile.quiet` with unsigned offsets, as `/dev/mem` has them. -/
def OpenFile.unsigned : OpenFile Unit :=
  { OpenFile.quiet with mode := OpenFile.quiet.mode ||| fmodeUnsignedOffset }

/-- `Sys.quiet` with `OpenFile.unsigned` open as descriptor 3. -/
def Sys.unsigned : Sys Unit := { Sys.quiet with files := fun _ => OpenFile.unsigned }

/-- At `offset_high = 0x80000000`, `offset_low = 0` the position is `-2^63`, whose low 32 bits are 0:
`llseek` returns 0, success, with `result` never written. -/
theorem sysLlseek_past_signed_zero :
    Sys.unsigned.fget 3 = some 0 ∧ llseekMethod (Sys.unsigned.files 0) = .defaultLlseek ∧
      unsignedOffsets (Sys.unsigned.files 0) = true ∧ llseekOffset 0x80000000 0 < 0 ∧
      sysLlseek Kernel.quiet Sys.unsigned 3 0x80000000 0 64 seekSet =
        (toCInt (llseekOffset 0x80000000 0),
          Sys.unsigned.setFile 0 ((Sys.unsigned.files 0).seekTo (llseekOffset 0x80000000 0))) ∧
      toCInt (llseekOffset 0x80000000 0) = 0 :=
  have hid : Sys.unsigned.fget 3 = some 0 := rfl
  have hm : llseekMethod (Sys.unsigned.files 0) = .defaultLlseek := rfl
  have hu : unsignedOffsets (Sys.unsigned.files 0) = true := rfl
  have hneg : llseekOffset 0x80000000 0 < 0 := by decide
  ⟨hid, hm, hu, hneg, sysLlseek_past_signed Kernel.quiet Sys.unsigned 3 0x80000000 0 64 hid hm hu hneg,
    by decide⟩

/-- `lseek(fd, offset, SEEK_SET)` made twice: whatever the file's `llseek` method, the second call
returns what the first returned and leaves the process as the first left it. -/
theorem sysLseek_set_twice (K : Kernel W) (s : Sys W) (fd : Nat) (offset : Int) :
    sysLseek K (sysLseek K s fd offset seekSet).2 fd offset seekSet = sysLseek K s fd offset seekSet := by
  rcases sysLseek_cases K s fd offset seekSet with ⟨e, -, h⟩ | ⟨id, hid, ho, h⟩
  · rw [h]
    exact h
  have hid' : (s.setFile id (vfsLlseek K s.world (s.files id) offset seekSet).2).fget fd = some id := hid
  rw [h, sysLseek_of_fget K hid' offset ho]
  simp only [Sys.world_setFile, Sys.files_setFile, if_true, Sys.setFile_setFile, vfsLlseek_set_twice]

/-- Where `lseek` to `((loff_t) offset_high << 32) | offset_low` returns a position, `llseek` with
those words seeks the file alike, stores the position at `result` and returns 0; if `result` cannot
be written it returns `-EFAULT`, the seek done all the same. -/
theorem sysLlseek_of_lseek (K : Kernel W) (s : Sys W) (fd : Nat) (high low : UInt64) (result : Int)
    (origin : Nat) (h : 0 ≤ (sysLseek K s fd (llseekOffset high low) origin).1) :
    sysLlseek K s fd high low result origin =
      match K.putUser s.world result (sysLseek K s fd (llseekOffset high low) origin).1 with
      | none => (efault.neg, (sysLseek K s fd (llseekOffset high low) origin).2)
      | some w => (0, (sysLseek K s fd (llseekOffset high low) origin).2.setWorld w) := by
  rcases sysLseek_cases K s fd (llseekOffset high low) origin with ⟨e, he, h'⟩ | ⟨id, hid, ho, h'⟩
  · rw [h'] at h
    exact absurd h (Int.not_le.mpr he)
  rw [h'] at h ⊢
  have hv := (lseekRetval_of_nonneg h).1
  rw [hv] at h ⊢
  unfold sysLlseek
  rw [hid]
  dsimp only
  rw [if_neg (Nat.not_lt.mpr ho), if_pos h]
  rfl

theorem sysLlseek_of_lseek_quiet :
    0 ≤ (sysLseek Kernel.quiet Sys.quiet 3 (llseekOffset 0 10) seekSet).1 ∧
      sysLlseek Kernel.quiet Sys.quiet 3 0 10 64 seekSet =
        match Kernel.quiet.putUser Sys.quiet.world 64
            (sysLseek Kernel.quiet Sys.quiet 3 (llseekOffset 0 10) seekSet).1 with
        | none => (efault.neg, (sysLseek Kernel.quiet Sys.quiet 3 (llseekOffset 0 10) seekSet).2)
        | some w => (0, (sysLseek Kernel.quiet Sys.quiet 3 (llseekOffset 0 10) seekSet).2.setWorld w) :=
  have h : 0 ≤ (sysLseek Kernel.quiet Sys.quiet 3 (llseekOffset 0 10) seekSet).1 := by decide
  ⟨h, sysLlseek_of_lseek Kernel.quiet Sys.quiet 3 0 10 64 seekSet h⟩

/-! ### Accounting -/

/-- The direction of a call that transfers at the file's position or its own: `read`, `pread64`,
`readv` and `preadv` read, their twins write; the seeks have none, and neither has `sendfile`, which
moves bytes both ways. -/
def Call.dir : Call → Option Rw
  | .read .. | .pread64 .. | .readv .. | .preadv .. => some .read
  | .write .. | .pwrite64 .. | .writev .. | .pwritev .. => some .write
  | _ => none

theorem chars_sysReadWrite (K : Kernel W) (rw rw' : Rw) (s : Sys W) (fd : Nat) (buf : Int)
    (count : UInt64) :
    (sysReadWrite K rw s fd buf count).2.acct.chars rw' =
      s.acct.chars rw' + if rw' = rw then (sysReadWrite K rw s fd buf count).1.toNat else 0 := by
  unfold sysReadWrite
  split
  · simp [Int.toNat_eq_zero.mpr (Int.le_of_lt (Errno.neg_lt_zero ebadf))]
  · simp only [Sys.acct_setPos]
    exact chars_vfsReadWrite K rw rw' s _ buf count _

theorem chars_sysPreadPwrite (K : Kernel W) (rw rw' : Rw) (s : Sys W) (fd : Nat) (buf : Int)
    (count : UInt64) (pos : Int) :
    (sysPreadPwrite K rw s fd buf count pos).2.acct.chars rw' =
      s.acct.chars rw' + if rw' = rw then (sysPreadPwrite K rw s fd buf count pos).1.toNat else 0 := by
  have hz : ∀ e : Errno, e.neg.toNat = 0 := fun e => Int.toNat_eq_zero.mpr (Int.le_of_lt (Errno.neg_lt_zero e))
  unfold sysPreadPwrite
  split
  · simp [hz]
  · split
    · simp [hz]
    · split
      · simp [hz]
      · exact chars_vfsReadWrite K rw rw' s _ buf count pos

theorem chars_vectorAccounted (rw rw' : Rw) (r : Int × Sys W) :
    (vectorAccounted rw r).2.acct.chars rw' =
      r.2.acct.chars rw' + if rw' = rw then (vectorAccounted rw r).1.toNat else 0 := by
  unfold vectorAccounted
  by_cases h : 0 < r.1
  · simp [h]
  · simp [h, Int.toNat_eq_zero.mpr (Int.not_lt.mp h)]

private theorem calls_vectorAccounted (rw : Rw) (r : Int × Sys W) :
    (vectorAccounted rw r).2.acct.calls rw = r.2.acct.calls rw + 1 := by
  unfold vectorAccounted
  split_ifs <;> simp

theorem chars_sysReadvWritev (K : Kernel W) (rw rw' : Rw) (s : Sys W) (fd : Nat) (vec : Int)
    (vlen : Nat) :
    (sysReadvWritev K rw s fd vec vlen).2.acct.chars rw' =
      s.acct.chars rw' + if rw' = rw then (sysReadvWritev K rw s fd vec vlen).1.toNat else 0 := by
  unfold sysReadvWritev
  rw [chars_vectorAccounted]
  congr 2
  split
  · rfl
  · simp [acct_vfsReadvWritev]

theorem chars_sysPreadvPwritev (K : Kernel W) (rw rw' : Rw) (s : Sys W) (fd : Nat) (vec : Int)
    (vlen : Nat) (posL posH : UInt64) :
    (sysPreadvPwritev K rw s fd vec vlen posL posH).2.acct.chars rw' =
      s.acct.chars rw' +
        if rw' = rw then (sysPreadvPwritev K rw s fd vec vlen posL posH).1.toNat else 0 := by
  by_cases hneg : posFromHilo posH posL < 0
  · rw [sysPreadvPwritev, if_pos hneg]
    simp [Int.toNat_eq_zero.mpr (Int.le_of_lt (Errno.neg_lt_zero einval))]
  · rw [sysPreadvPwritev, if_neg hneg, chars_vectorAccounted]
    congr 2
    split
    · rfl
    · split
      · rfl
      · exact acct_vfsReadvWritev K rw s _ vec vlen _

theorem acct_sysLseek (K : Kernel W) (s : Sys W) (fd : Nat) (offset : Int) (origin : Nat) :
    (sysLseek K s fd offset origin).2.acct = s.acct := by
  rcases sysLseek_cases K s fd offset origin with ⟨e, -, h⟩ | ⟨id, -, -, h⟩ <;>
    simp only [h, Sys.acct_setFile]

theorem acct_sysLlseek (K : Kernel W) (s : Sys W) (fd : Nat) (high low : UInt64) (result : Int)
    (origin : Nat) : (sysLlseek K s fd high low result origin).2.acct = s.acct := by
  rcases sysLlseek_cases K s fd high low result origin with h | ⟨id, w, -, h⟩ <;>
    simp only [h, Sys.acct_setWorld, Sys.acct_setFile]

/-- What a call that returned `r` adds to `rchar` (`rw = .read`) or `wchar` (`rw = .write`): the
bytes, if it transfers in that direction. -/
def Call.chars (rw : Rw) (c : Call) (r : Int) : Nat := if c.dir = some rw then r.toNat else 0

/-- `sendfile` and `sendfile64`, which count the bytes `do_splice_direct` moved both as read and as
written. -/
def Call.sends : Call → Bool
  | .sendfile .. | .sendfile64 .. => true
  | _ => false

theorem Call.chars_of_dir {c : Call} {rw : Rw} (h : c.dir = some rw) (rw' : Rw) (r : Int) :
    c.chars rw' r = if rw' = rw then r.toNat else 0 := by
  unfold Call.chars
  rw [h]
  by_cases hr : rw' = rw
  · rw [if_pos (congrArg some hr.symm), if_pos hr]
  · rw [if_neg (fun h' => hr (Option.some_inj.mp h').symm), if_neg hr]

theorem Call.sends_of_dir {c : Call} {rw : Rw} (h : c.dir = some rw) : c.sends = false := by
  cases c <;> first | rfl | exact nomatch h

/-- Every call but `sendfile` adds to `rchar` and `wchar` what it returns, if it transfers in their
direction, whatever its outcome. -/
theorem step_chars_eq (K : Kernel W) (s : Sys W) {c : Call} (hc : c.sends = false) (rw' : Rw) :
    (step K s c).2.acct.chars rw' = s.acct.chars rw' + c.chars rw' (step K s c).1 := by
  cases hd : c.dir with
  | none =>
    -- the seeks
    rw [Call.chars, hd, if_neg (fun h => nomatch h), Nat.add_zero]
    cases c <;> simp only [Call.dir, Call.sends, Bool.true_eq_false, reduceCtorEq] at hd hc
    · exact congrArg (IoAcct.chars · rw') (acct_sysLseek K s _ _ _)
    · exact congrArg (IoAcct.chars · rw') (acct_sysLlseek K s _ _ _ _ _)
  | some rw =>
    rw [Call.chars_of_dir hd]
    cases c <;> simp only [Call.dir, Option.some.injEq, reduceCtorEq] at hd <;> subst hd <;>
      simp only [step, sysRead, sysWrite, sysPread64, sysPwrite64, sysReadv, sysWritev, sysPreadv,
        sysPwritev]
    · exact chars_sysReadWrite K .read rw' s _ _ _
    · exact chars_sysReadWrite K .write rw' s _ _ _
    · exact chars_sysPreadPwrite K .read rw' s _ _ _ _
    · exact chars_sysPreadPwrite K .write rw' s _ _ _ _
    · exact chars_sysReadvWritev K .read rw' s _ _ _
    · exact chars_sysReadvWritev K .write rw' s _ _ _
    · exact chars_sysPreadvPwritev K .read rw' s _ _ _ _ _
    · exact chars_sysPreadvPwritev K .write rw' s _ _ _ _ _

/-- Every call that transfers in one direction adds the bytes it returns to that direction's
counter, `rchar` or `wchar`, whatever its outcome, and leaves the other counter alone. -/
theorem step_chars (K : Kernel W) (s : Sys W) {c : Call} {rw : Rw} (h : c.dir = some rw) (rw' : Rw) :
    (step K s c).2.acct.chars rw' =
      s.acct.chars rw' + if rw' = rw then (step K s c).1.toNat else 0 := by
  rw [step_chars_eq K s (Call.sends_of_dir h) rw', Call.chars_of_dir h]

theorem step_chars_read :
    (Call.read 3 0 4096).dir = some .read ∧
      (step Kernel.quiet Sys.quiet (.read 3 0 4096)).2.acct.chars .read =
        Sys.quiet.acct.chars .read +
          if Rw.read = .read then (step Kernel.quiet Sys.quiet (.read 3 0 4096)).1.toNat else 0 :=
  have h : (Call.read 3 0 4096).dir = some .read := rfl
  ⟨h, step_chars Kernel.quiet Sys.quiet h .read⟩

/-- `readv` and `writev` count every call in `syscr` or `syscw`, even one on a descriptor that is
not open, which `read` and `write` turn away without counting it or changing anything. -/
theorem sysReadvWritev_counts (K : Kernel W) (rw : Rw) (s : Sys W) (fd : Nat) (vec : Int)
    (vlen : Nat) :
    (sysReadvWritev K rw s fd vec vlen).2.acct.calls rw = s.acct.calls rw + 1 ∧
      ∀ buf count, s.fget fd = none → sysReadWrite K rw s fd buf count = (ebadf.neg, s) := by
  refine ⟨?_, fun buf count h => by rw [sysReadWrite, h]⟩
  unfold sysReadvWritev
  rw [calls_vectorAccounted]
  congr 2
  split
  · rfl
  · simp [acct_vfsReadvWritev]

end SearchSyscall
