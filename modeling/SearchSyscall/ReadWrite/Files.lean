import SearchSyscall.ReadWrite.Offsets

/-!
# Open files, their methods, and what the calls reach outside this file

The state the seek and transfer paths of `fs/read_write.c` read and write:

* `OpenFile` is `struct file`: the position `f_pos`, `f_version`, the mode bits, its two inodes, and
  `f_op`, whose methods (`FileOps`) belong to the filesystem.  The `llseek` methods are this
  file's own (`Llseek`); `read`, `write`, `aio_read` and `aio_write` act on a world `W` (file
  contents, user memory) that this code does not look into.
* `Kernel W` is the rest of the kernel these functions call: inode sizes and limits, mandatory
  locks, the security hook, `access_ok`, the user copies, `kmalloc`, and `do_splice_direct`.  The
  values the C types bound carry their bound as a field.
* `Sys W` is the calling process: its descriptor table, the files it names, the world, its I/O
  accounting `current->ioac`, and the `fsnotify` events raised.
-/

namespace SearchSyscall

/-- `struct iovec`: a user buffer and its length. -/
structure Iovec where
  base : Int
  len : UInt64
  deriving DecidableEq, Repr

/-- The direction of a transfer, the `READ`/`WRITE` argument of `rw_verify_area` and
`do_readv_writev`. -/
inductive Rw where
  | read
  | write
  deriving DecidableEq, Repr

/-- An `f_op->read` or `f_op->write` method: on the world, from a user buffer, a count and `*ppos`,
the value it returns, the new `*ppos`, and the world after. -/
abbrev IoFn (W : Type) := W → Int → UInt64 → Int → Int × Int × W

/-- An `f_op->aio_read` or `f_op->aio_write` method on an iovec array of `nbytes` bytes, as
`do_sync_read`, `do_sync_write` and `do_sync_readv_writev` drive it to completion: the value, the
final `kiocb.ki_pos`, and the world after. -/
abbrev IovFn (W : Type) := W → List Iovec → UInt64 → Int → Int × Int × W

/-- A `read` or `write` method that moves `*ppos` forward by at most the bytes it is asked for, as
one that transfers bytes at `*ppos` and steps past them does (a write in `O_APPEND` mode, which
first moves to the end of the file, is not of this kind). -/
def IoFn.Advances {W : Type} (fn : IoFn W) : Prop :=
  ∀ w buf count pos, pos ≤ (fn w buf count pos).2.1 ∧ (fn w buf count pos).2.1 ≤ pos + count.toNat

/-- An `aio` method that moves the position forward by at most the `nbytes` it is asked for. -/
def IovFn.Advances {W : Type} (fn : IovFn W) : Prop :=
  ∀ w iov nbytes pos, pos ≤ (fn w iov nbytes pos).2.1 ∧ (fn w iov nbytes pos).2.1 ≤ pos + nbytes.toNat

/-- A `read` or `write` method that returns at most the bytes it is asked for. -/
def IoFn.ReturnsAtMost {W : Type} (fn : IoFn W) : Prop :=
  ∀ w buf count pos, (fn w buf count pos).1 ≤ count.toNat

/-- An `aio` method that returns at most the `nbytes` it is asked for. -/
def IovFn.ReturnsAtMost {W : Type} (fnv : IovFn W) : Prop :=
  ∀ w iov nbytes pos, (fnv w iov nbytes pos).1 ≤ nbytes.toNat

/-- The `llseek` methods of this file: `generic_file_llseek`, `generic_file_llseek_size` as a
filesystem's own `llseek` calls it with its `maxsize`, `noop_llseek`, `no_llseek` and
`default_llseek`. -/
inductive Llseek where
  | genericFileLlseek
  | genericFileLlseekSize (maxsize : Int)
  | noopLlseek
  | noLlseek
  | defaultLlseek

/-- `struct file_operations`, the methods this code calls.  A `read` or `write` method returns an
`ssize_t`. -/
structure FileOps (W : Type) where
  llseek : Option Llseek
  read : Option (IoFn W)
  write : Option (IoFn W)
  aioRead : Option (IovFn W)
  aioWrite : Option (IovFn W)
  read_inLoff : ∀ fn, read = some fn → ∀ w buf count pos, InLoff (fn w buf count pos).1
  write_inLoff : ∀ fn, write = some fn → ∀ w buf count pos, InLoff (fn w buf count pos).1

/-- `struct file`: the position, its version, the mode bits, the inodes `f_path.dentry->d_inode`
(`ino`) and `f_mapping->host` (`host`), and `f_op`.  The two inodes differ on a block device file,
whose mapping is the device's. -/
structure OpenFile (W : Type) where
  pos : Int
  version : Nat
  mode : Nat
  ino : Nat
  host : Nat
  ops : Option (FileOps W)

/-- `unsigned_offsets(file)` (lines 38-41). -/
def unsignedOffsets {W : Type} (f : OpenFile W) : Bool := hasFlag f.mode fmodeUnsignedOffset

/-- The rest of the kernel, as the calls of this file reach it on the world `W`. -/
structure Kernel (W : Type) where
  /-- `i_size_read(inode)`, a `loff_t`. -/
  isize : W → Nat → Int
  isize_inLoff : ∀ w i, InLoff (isize w i)
  /-- `inode->i_sb->s_maxbytes`, a `loff_t`. -/
  maxbytes : Nat → Int
  maxbytes_inLoff : ∀ i, InLoff (maxbytes i)
  /-- `inode->i_flock && mandatory_lock(inode)`. -/
  mandatoryLock : W → Nat → Bool
  /-- `locks_mandatory_area(FLOCK_VERIFY_READ or _WRITE, inode, file, pos, count)`. -/
  locksMandatoryArea : W → Nat → Rw → Int → UInt64 → Int
  /-- `security_file_permission(file, MAY_READ or MAY_WRITE)`: `0` or a negative error. -/
  securityFilePermission : W → Nat → Rw → Int
  securityFilePermission_le : ∀ w i r, securityFilePermission w i r ≤ 0
  /-- `access_ok(type, addr, size)`, `type` being `VERIFY_WRITE` when the flag is set and
  `VERIFY_READ` when it is not. -/
  accessOk : Bool → Int → UInt64 → Bool
  /-- `copy_from_user` of `n` `struct iovec`s, or `none` if it faults. -/
  copyIovecs : W → Int → Nat → Option (List Iovec)
  copyIovecs_length : ∀ w a n l, copyIovecs w a n = some l → l.length = n
  /-- Whether `kmalloc` of an iovec array succeeds. -/
  kmallocOk : W → Bool
  /-- `do_splice_direct(in, ppos, out, len, 0)` on the open files `in` and `out`: the value, `*ppos`
  and `out->f_pos` after, and the world. -/
  spliceDirect : W → Nat → Int → Nat → Int → UInt64 → Int × Int × Int × W
  /-- `get_user` or `copy_from_user` of an offset, or `none` if it faults. -/
  getUser : W → Int → Option Int
  getUser_inLoff : ∀ w a x, getUser w a = some x → InLoff x
  /-- `put_user` or `copy_to_user` of an offset, or `none` if it faults. -/
  putUser : W → Int → Int → Option W

/-- The I/O accounting of the calling task, `current->ioac`. -/
structure IoAcct where
  rchar : Nat
  wchar : Nat
  syscr : Nat
  syscw : Nat
  deriving DecidableEq, Repr

/-- An `fsnotify` event on an open file. -/
inductive Note where
  | access (file : Nat)
  | modify (file : Nat)
  deriving DecidableEq, Repr

/-- The calling process: its descriptor table, the open files it names, the world, its I/O
accounting and the `fsnotify` events raised. -/
structure Sys (W : Type) where
  fdt : Nat → Option Nat
  files : Nat → OpenFile W
  world : W
  acct : IoAcct
  notes : List Note

namespace Sys

variable {W : Type}

/-- `fget_light(fd)`: the open file the descriptor names.  Its `fd` is an `unsigned int`, so a
descriptor passed as an `unsigned long` (`readv`, `preadv`) or cast from a `long` (`SyS_pread64`)
keeps its low 32 bits. -/
def fget (s : Sys W) (fd : Nat) : Option Nat := s.fdt (fd % 2 ^ 32)

/-- A descriptor names the same open file as its low 32 bits. -/
@[simp] theorem fget_mod (s : Sys W) (fd : Nat) : s.fget (fd % 2 ^ 32) = s.fget fd := by
  simp only [fget, Nat.mod_mod]

/-- Replace the open file `id`. -/
def setFile (s : Sys W) (id : Nat) (f : OpenFile W) : Sys W :=
  { s with files := fun j => if j = id then f else s.files j }

/-- `file_pos_write(file, pos)` (lines 460-463). -/
def setPos (s : Sys W) (id : Nat) (pos : Int) : Sys W := s.setFile id { s.files id with pos := pos }

@[simp] theorem files_setFile (s : Sys W) (id : Nat) (f : OpenFile W) (j : Nat) :
    (s.setFile id f).files j = if j = id then f else s.files j := rfl

@[simp] theorem fdt_setFile (s : Sys W) (id : Nat) (f : OpenFile W) :
    (s.setFile id f).fdt = s.fdt := rfl

@[simp] theorem world_setFile (s : Sys W) (id : Nat) (f : OpenFile W) :
    (s.setFile id f).world = s.world := rfl

/-- `add_rchar(current, n)`. -/
def addRchar (s : Sys W) (n : Int) : Sys W :=
  { s with acct := { s.acct with rchar := s.acct.rchar + n.toNat } }

/-- `add_wchar(current, n)`. -/
def addWchar (s : Sys W) (n : Int) : Sys W :=
  { s with acct := { s.acct with wchar := s.acct.wchar + n.toNat } }

/-- `inc_syscr(current)`. -/
def incSyscr (s : Sys W) : Sys W := { s with acct := { s.acct with syscr := s.acct.syscr + 1 } }

/-- `inc_syscw(current)`. -/
def incSyscw (s : Sys W) : Sys W := { s with acct := { s.acct with syscw := s.acct.syscw + 1 } }

/-- `fsnotify_access(file)` or `fsnotify_modify(file)`. -/
def notify (s : Sys W) (n : Note) : Sys W := { s with notes := s.notes ++ [n] }

/-- Replace the world, after a call into the rest of the kernel. -/
def setWorld (s : Sys W) (w : W) : Sys W := { s with world := w }

@[simp] theorem files_addRchar (s : Sys W) (n : Int) : (s.addRchar n).files = s.files := rfl
@[simp] theorem files_addWchar (s : Sys W) (n : Int) : (s.addWchar n).files = s.files := rfl
@[simp] theorem files_incSyscr (s : Sys W) : s.incSyscr.files = s.files := rfl
@[simp] theorem files_incSyscw (s : Sys W) : s.incSyscw.files = s.files := rfl
@[simp] theorem files_notify (s : Sys W) (n : Note) : (s.notify n).files = s.files := rfl
@[simp] theorem files_setWorld (s : Sys W) (w : W) : (s.setWorld w).files = s.files := rfl
@[simp] theorem fdt_addRchar (s : Sys W) (n : Int) : (s.addRchar n).fdt = s.fdt := rfl
@[simp] theorem fdt_addWchar (s : Sys W) (n : Int) : (s.addWchar n).fdt = s.fdt := rfl
@[simp] theorem fdt_incSyscr (s : Sys W) : s.incSyscr.fdt = s.fdt := rfl
@[simp] theorem fdt_incSyscw (s : Sys W) : s.incSyscw.fdt = s.fdt := rfl
@[simp] theorem fdt_notify (s : Sys W) (n : Note) : (s.notify n).fdt = s.fdt := rfl
@[simp] theorem fdt_setWorld (s : Sys W) (w : W) : (s.setWorld w).fdt = s.fdt := rfl
@[simp] theorem acct_setFile (s : Sys W) (id : Nat) (f : OpenFile W) :
    (s.setFile id f).acct = s.acct := rfl
@[simp] theorem acct_setPos (s : Sys W) (id : Nat) (p : Int) : (s.setPos id p).acct = s.acct := rfl
@[simp] theorem acct_setWorld (s : Sys W) (w : W) : (s.setWorld w).acct = s.acct := rfl
@[simp] theorem acct_notify (s : Sys W) (n : Note) : (s.notify n).acct = s.acct := rfl

theorem files_setPos (s : Sys W) (id : Nat) (p : Int) :
    (s.setPos id p).files = fun j => if j = id then { s.files id with pos := p } else s.files j := rfl

theorem world_setPos (s : Sys W) (id : Nat) (p : Int) : (s.setPos id p).world = s.world := rfl

theorem files_setPos_self (s : Sys W) (id : Nat) (p : Int) :
    (s.setPos id p).files id = { s.files id with pos := p } := by
  simp [setPos]

theorem fget_setPos (s : Sys W) (id : Nat) (p : Int) (fd : Nat) : (s.setPos id p).fget fd = s.fget fd :=
  rfl

@[simp] theorem setFile_setFile (s : Sys W) (id : Nat) (f g : OpenFile W) :
    (s.setFile id f).setFile id g = s.setFile id g := by
  unfold setFile
  congr 1
  funext j
  dsimp only
  split_ifs <;> rfl

/-- Storing back the file a descriptor names changes nothing. -/
theorem setFile_self (s : Sys W) (id : Nat) : s.setFile id (s.files id) = s := by
  unfold setFile
  congr
  funext j
  split_ifs with h
  · rw [h]
  · rfl

end Sys

/-! ### What a call may do to the open files -/

namespace Sys

variable {W : Type}

/-- Each open file of `s'` is that of `s`, or that of `s` with `f_pos` moved into `[0, 2^63)` and
`f_version` perhaps reset: its mode, inode and methods are those it had. -/
def MovesWithin (s s' : Sys W) : Prop :=
  ∀ j, s'.files j = s.files j ∨
    ∃ p v, 0 ≤ p ∧ p < 2 ^ 63 ∧ s'.files j = { s.files j with pos := p, version := v }

theorem MovesWithin.refl (s : Sys W) : MovesWithin s s := fun _ => .inl rfl

theorem MovesWithin.of_files_eq {s s' : Sys W} (h : s'.files = s.files) : MovesWithin s s' :=
  fun _ => .inl (h ▸ rfl)

theorem MovesWithin.trans {s s' s'' : Sys W} (h : MovesWithin s s') (h' : MovesWithin s' s'') :
    MovesWithin s s'' := by
  intro j
  rcases h' j with h' | ⟨p, v, hp, hp', h'⟩ <;> rcases h j with h | ⟨q, u, hq, hq', h⟩
  · exact .inl (h'.trans h)
  · exact .inr ⟨q, u, hq, hq', h'.trans h⟩
  · exact .inr ⟨p, v, hp, hp', h' ▸ h ▸ rfl⟩
  · exact .inr ⟨p, v, hp, hp', h' ▸ h ▸ rfl⟩

theorem movesWithin_setFile (s : Sys W) (id : Nat) {f : OpenFile W}
    (h : f = s.files id ∨ ∃ p v, 0 ≤ p ∧ p < 2 ^ 63 ∧ f = { s.files id with pos := p, version := v }) :
    MovesWithin s (s.setFile id f) := by
  intro j
  by_cases hj : j = id
  · subst hj
    simpa using h
  · exact .inl (by simp [hj])

theorem movesWithin_setPos (s : Sys W) (id : Nat) {p : Int} (h : 0 ≤ p ∧ p < 2 ^ 63) :
    MovesWithin s (s.setPos id p) :=
  movesWithin_setFile s id (.inr ⟨p, (s.files id).version, h.1, h.2, rfl⟩)

end Sys

/-! ### Reading and writing

What sets `vfs_read` apart from `vfs_write`, `readv` from `writev`, and `pread64` from `pwrite64`:
the mode bit they need (`FMODE_READ` or `FMODE_WRITE`), the methods they call (`f_op->read` or
`->write`, `->aio_read` or `->aio_write`), the direction `access_ok` checks the buffer in, the
`fsnotify` event (`fsnotify_access` or `fsnotify_modify`), and the counters of `current->ioac` they
raise (`add_rchar` or `add_wchar`, `inc_syscr` or `inc_syscw`). -/

namespace Rw

variable {W : Type}

def modeBit : Rw → Nat
  | .read => fmodeRead
  | .write => fmodeWrite

/-- `FMODE_PREAD` or `FMODE_PWRITE`, needed by a transfer at a position of its own. -/
def positionedBit : Rw → Nat
  | .read => fmodePread
  | .write => fmodePwrite

def method : Rw → FileOps W → Option (IoFn W)
  | .read => FileOps.read
  | .write => FileOps.write

/-- Either plain method returns an `ssize_t`. -/
theorem method_inLoff {rw : Rw} {ops : FileOps W} {fn : IoFn W} (h : rw.method ops = some fn)
    (w : W) (buf : Int) (count : UInt64) (pos : Int) : InLoff (fn w buf count pos).1 := by
  cases rw
  exacts [ops.read_inLoff fn h w buf count pos, ops.write_inLoff fn h w buf count pos]

def aioMethod : Rw → FileOps W → Option (IovFn W)
  | .read => FileOps.aioRead
  | .write => FileOps.aioWrite

/-- `vrfy_dir(type)` (line 636): a read fills the user buffer, so `access_ok` checks it for writing
(`VERIFY_WRITE`); a write reads it (`VERIFY_READ`). -/
def verifyWrite : Rw → Bool
  | .read => true
  | .write => false

def note : Rw → Nat → Note
  | .read => .access
  | .write => .modify

end Rw

/-- `rchar` or `wchar`: the bytes the task has read or written. -/
def IoAcct.chars (a : IoAcct) : Rw → Nat
  | .read => a.rchar
  | .write => a.wchar

/-- `syscr` or `syscw`: the read or write calls the task has made. -/
def IoAcct.calls (a : IoAcct) : Rw → Nat
  | .read => a.syscr
  | .write => a.syscw

namespace Sys

variable {W : Type}

def addChars : Rw → Sys W → Int → Sys W
  | .read => addRchar
  | .write => addWchar

def incCalls : Rw → Sys W → Sys W
  | .read => incSyscr
  | .write => incSyscw

@[simp] theorem files_addChars (rw : Rw) (s : Sys W) (n : Int) : (s.addChars rw n).files = s.files := by
  cases rw <;> rfl

@[simp] theorem files_incCalls (rw : Rw) (s : Sys W) : (s.incCalls rw).files = s.files := by
  cases rw <;> rfl

@[simp] theorem fdt_addChars (rw : Rw) (s : Sys W) (n : Int) : (s.addChars rw n).fdt = s.fdt := by
  cases rw <;> rfl

@[simp] theorem fdt_incCalls (rw : Rw) (s : Sys W) : (s.incCalls rw).fdt = s.fdt := by
  cases rw <;> rfl

theorem world_addChars (rw : Rw) (s : Sys W) (n : Int) : (s.addChars rw n).world = s.world := by
  cases rw <;> rfl

theorem world_incCalls (rw : Rw) (s : Sys W) : (s.incCalls rw).world = s.world := by
  cases rw <;> rfl

@[simp] theorem chars_addChars (rw rw' : Rw) (s : Sys W) (n : Int) :
    ((s.addChars rw n).acct.chars rw') = s.acct.chars rw' + if rw' = rw then n.toNat else 0 := by
  cases rw <;> cases rw' <;> rfl

@[simp] theorem chars_incCalls (rw rw' : Rw) (s : Sys W) :
    ((s.incCalls rw).acct.chars rw') = s.acct.chars rw' := by
  cases rw <;> cases rw' <;> rfl

@[simp] theorem calls_addChars (rw rw' : Rw) (s : Sys W) (n : Int) :
    ((s.addChars rw n).acct.calls rw') = s.acct.calls rw' := by
  cases rw <;> cases rw' <;> rfl

@[simp] theorem calls_incCalls (rw rw' : Rw) (s : Sys W) :
    ((s.incCalls rw).acct.calls rw') = s.acct.calls rw' + if rw' = rw then 1 else 0 := by
  cases rw <;> cases rw' <;> rfl

end Sys

/-- The rest of the kernel at its quietest, on a world with nothing in it: empty files on
filesystems whose `s_maxbytes` is `2^63 - 1`, no mandatory locks, a security hook and `access_ok`
that allow everything, user memory that holds empty segments and the offset 0, and a
`do_splice_direct` that moves nothing. -/
def Kernel.quiet : Kernel Unit where
  isize _ _ := 0
  isize_inLoff _ _ := show InLoff 0 by unfold InLoff; omega
  maxbytes _ := 2 ^ 63 - 1
  maxbytes_inLoff _ := show InLoff (2 ^ 63 - 1) by unfold InLoff; omega
  mandatoryLock _ _ := false
  locksMandatoryArea _ _ _ _ _ := 0
  securityFilePermission _ _ _ := 0
  securityFilePermission_le _ _ _ := Int.le_refl 0
  accessOk _ _ _ := true
  copyIovecs _ _ n := some (List.replicate n ⟨0, 0⟩)
  copyIovecs_length _ _ n _ h := Option.some_inj.mp h ▸ List.length_replicate n _
  kmallocOk _ := true
  spliceDirect w _ pos _ opos _ := (0, pos, opos, w)
  getUser _ _ := some 0
  getUser_inLoff _ _ _ h := Option.some_inj.mp h ▸ by unfold InLoff; omega
  putUser w _ _ := some w

/-- A method that moves every byte it is asked for, up to `MAX_RW_COUNT`, and steps past them. -/
def fullTransfer : IoFn Unit :=
  fun w _ count pos => (min count.toNat maxRwCount, pos + min count.toNat maxRwCount, w)

theorem fullTransfer_inLoff (w : Unit) (buf : Int) (count : UInt64) (pos : Int) :
    InLoff (fullTransfer w buf count pos).1 := by
  unfold fullTransfer InLoff maxRwCount
  omega

/-- A file open for reading and writing, seekable, at its start, with `default_llseek` and methods
that move every byte asked for. -/
def OpenFile.quiet : OpenFile Unit :=
  ⟨0, 0, fmodeRead ||| fmodeWrite ||| fmodeLseek ||| fmodePread ||| fmodePwrite, 0, 0,
    some ⟨some .defaultLlseek, some fullTransfer, some fullTransfer, none, none,
      fun _ h => Option.some_inj.mp h ▸ fullTransfer_inLoff,
      fun _ h => Option.some_inj.mp h ▸ fullTransfer_inLoff⟩⟩

/-- A process on `Kernel.quiet` with `OpenFile.quiet` open as descriptor 3. -/
def Sys.quiet : Sys Unit := ⟨fun fd => if fd = 3 then some 0 else none, fun _ => OpenFile.quiet, (),
  ⟨0, 0, 0, 0⟩, []⟩

/-- The `unsigned long` descriptor `2^32 + 3` names descriptor 3. -/
example : Sys.quiet.fget (2 ^ 32 + 3) = some 0 := by decide

end SearchSyscall
