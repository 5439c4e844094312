import SearchSyscall.ReadWrite.Syscalls

/-!
# `pread64` is `read` at a position

`pread64(fd, buf, count, pos)` hands `vfs_read` the caller's `pos` where `read` hands it the file's
`f_pos`, and stores nothing back.  Since `vfs_read` and the vector path never look at `f_pos` itself
(`rw_verify_area` reads the file's mode and inode only), the call is `read` on the file moved to
`pos`, after which every position is put back:

* `vfsReadWrite_setPos`, `vfsReadvWritev_setPos`: moving the file first changes nothing but the
  files of the result;
* `sysPreadPwrite_eq_at`: `pread64` and `pwrite64` are `read` and `write` at `pos`, the value, the
  world, the accounting and the `fsnotify` events all alike;
* `sysPreadvPwritev_eq_at`: `preadv` and `pwritev` are `readv` and `writev` at `pos_from_hilo`.

Both need the file to allow positioned transfers (`FMODE_PREAD`, `FMODE_PWRITE`) and the position
to be non-negative: otherwise the positioned call fails with `-ESPIPE` or `-EINVAL`.
-/

namespace SearchSyscall

variable {W : Type}

/-! ### Moving the file first -/

private theorem transferAccounted_setPos (rw : Rw) (fn : IoFn W) (s : Sys W) (id id' : Nat) (buf : Int)
    (count : UInt64) (pos p : Int) :
    transferAccounted rw fn (s.setPos id p) id' buf count pos =
      ((transferAccounted rw fn s id' buf count pos).1, (transferAccounted rw fn s id' buf count pos).2.1,
        { (transferAccounted rw fn s id' buf count pos).2.2 with files := (s.setPos id p).files }) := by
  cases rw <;> simp only [transferAccounted, Sys.world_setPos] <;> split_ifs <;> rfl

/-- `vfs_read` and `vfs_write` on the file `id` moved to `p`: the same value and position, and the
same process but for the files. -/
theorem vfsReadWrite_setPos (K : Kernel W) (rw : Rw) (s : Sys W) (id : Nat) (buf : Int)
    (count : UInt64) (pos p : Int) :
    vfsReadWrite K rw (s.setPos id p) id buf count pos =
      ((vfsReadWrite K rw s id buf count pos).1, (vfsReadWrite K rw s id buf count pos).2.1,
        { (vfsReadWrite K rw s id buf count pos).2.2 with files := (s.setPos id p).files }) := by
  unfold vfsReadWrite
  rw [Sys.files_setPos_self, Sys.world_setPos]
  dsimp only
  rw [rwVerifyArea_pos_irrel]
  cases (s.files id).ops.bind rw.ioMethod with
  | none => split_ifs <;> rfl
  | some fn =>
    dsimp only
    split_ifs
    · rfl
    · rfl
    · dsimp only
      rfl
    · exact transferAccounted_setPos rw fn s id id buf _ pos p

private theorem readvWritevBody_setPos (K : Kernel W) (rw : Rw) (s : Sys W) (id : Nat) (vec : Int)
    (vlen : Nat) (pos p : Int) :
    readvWritevBody K rw (s.setPos id p) id vec vlen pos =
      ((readvWritevBody K rw s id vec vlen pos).1, (readvWritevBody K rw s id vec vlen pos).2.1,
        { (readvWritevBody K rw s id vec vlen pos).2.2 with files := (s.setPos id p).files }) := by
  unfold readvWritevBody
  rw [Sys.files_setPos_self, Sys.world_setPos]
  dsimp only
  rw [rwVerifyArea_pos_irrel]
  cases (s.files id).ops with
  | none => rfl
  | some ops =>
    dsimp only
    split_ifs
    · rfl
    · dsimp only
      rfl
    · cases rw.vecMethod ops <;> rfl

private theorem doReadvWritev_setPos (K : Kernel W) (rw : Rw) (s : Sys W) (id : Nat) (vec : Int)
    (vlen : Nat) (pos p : Int) :
    doReadvWritev K rw (s.setPos id p) id vec vlen pos =
      ((doReadvWritev K rw s id vec vlen pos).1, (doReadvWritev K rw s id vec vlen pos).2.1,
        { (doReadvWritev K rw s id vec vlen pos).2.2 with files := (s.setPos id p).files }) := by
  unfold doReadvWritev
  rw [readvWritevBody_setPos]
  dsimp only
  split_ifs <;> rfl

/-- `vfs_readv` and `vfs_writev` on the file `id` moved to `p`: the same value and position, and
the same process but for the files. -/
theorem vfsReadvWritev_setPos (K : Kernel W) (rw : Rw) (s : Sys W) (id : Nat) (vec : Int)
    (vlen : Nat) (pos p : Int) :
    vfsReadvWritev K rw (s.setPos id p) id vec vlen pos =
      ((vfsReadvWritev K rw s id vec vlen pos).1, (vfsReadvWritev K rw s id vec vlen pos).2.1,
        { (vfsReadvWritev K rw s id vec vlen pos).2.2 with files := (s.setPos id p).files }) := by
  unfold vfsReadvWritev
  rw [Sys.files_setPos_self]
  dsimp only
  split_ifs
  · rfl
  · rfl
  · exact doReadvWritev_setPos K rw s id vec vlen pos p

/-! ### The positioned calls -/

/-- `pread64(fd, buf, count, pos)` is `read(fd, buf, count)` on the file moved to `pos`, with every
position then put back: the same value, and the same world, accounting and `fsnotify` events; and
`pwrite64` is `write` in the same way. -/
theorem sysPreadPwrite_eq_at (K : Kernel W) (rw : Rw) (s : Sys W) (fd : Nat) (buf : Int)
    (count : UInt64) {pos : Int} (hpos : 0 ≤ pos) {id : Nat} (hid : s.fget fd = some id)
    (hbit : hasFlag (s.files id).mode rw.positionedBit = true) :
    sysPreadPwrite K rw s fd buf count pos =
      ((sysReadWrite K rw (s.setPos id pos) fd buf count).1,
        { (sysReadWrite K rw (s.setPos id pos) fd buf count).2 with files := s.files }) := by
  unfold sysPreadPwrite sysReadWrite
  rw [if_neg (Int.not_lt.mpr hpos), Sys.fget_setPos, hid]
  dsimp only
  rw [if_neg (by rw [hbit]; decide), Sys.files_setPos_self]
  dsimp only
  rw [vfsReadWrite_setPos]
  dsimp only
  -- `vfs_read` left the files alone, so putting them back gives its process
  have hf := files_vfsReadWrite K rw s id buf count pos
  generalize vfsReadWrite K rw s id buf count pos = r at hf ⊢
  obtain ⟨r1, r2, t⟩ := r
  cases t
  cases hf
  rfl

theorem sysPreadPwrite_eq_at_quiet :
    0 ≤ (10 : Int) ∧ Sys.quiet.fget 3 = some 0 ∧
      hasFlag (Sys.quiet.files 0).mode Rw.read.positionedBit = true ∧
      sysPreadPwrite Kernel.quiet .read Sys.quiet 3 0 4096 10 =
        ((sysReadWrite Kernel.quiet .read (Sys.quiet.setPos 0 10) 3 0 4096).1,
          { (sysReadWrite Kernel.quiet .read (Sys.quiet.setPos 0 10) 3 0 4096).2 with
            files := Sys.quiet.files }) :=
  have hpos : 0 ≤ (10 : Int) := by decide
  have hid : Sys.quiet.fget 3 = some 0 := rfl
  have hbit : hasFlag (Sys.quiet.files 0).mode Rw.read.positionedBit = true := rfl
  ⟨hpos, hid, hbit, sysPreadPwrite_eq_at Kernel.quiet .read Sys.quiet 3 0 4096 hpos hid hbit⟩

/-- `preadv(fd, vec, vlen, pos_l, pos_h)` is `readv(fd, vec, vlen)` on the file moved to
`pos_from_hilo(pos_h, pos_l)`, with every position then put back: the same value, world, accounting
and `fsnotify` events; and `pwritev` is `writev` in the same way. -/
theorem sysPreadvPwritev_eq_at (K : Kernel W) (rw : Rw) (s : Sys W) (fd : Nat) (vec : Int)
    (vlen : Nat) (posL posH : UInt64) (hpos : 0 ≤ posFromHilo posH posL) {id : Nat}
    (hid : s.fget fd = some id) (hbit : hasFlag (s.files id).mode rw.positionedBit = true) :
    sysPreadvPwritev K rw s fd vec vlen posL posH =
      ((sysReadvWritev K rw (s.setPos id (posFromHilo posH posL)) fd vec vlen).1,
        { (sysReadvWritev K rw (s.setPos id (posFromHilo posH posL)) fd vec vlen).2 with
          files := s.files }) := by
  rw [sysPreadvPwritev, if_neg (Int.not_lt.mpr hpos)]
  unfold sysReadvWritev vectorAccounted
  rw [Sys.fget_setPos, hid]
  dsimp only
  rw [if_neg (by rw [hbit]; decide), Sys.files_setPos_self]
  dsimp only
  rw [vfsReadvWritev_setPos]
  dsimp only
  have hf := files_vfsReadvWritev K rw s id vec vlen (posFromHilo posH posL)
  generalize vfsReadvWritev K rw s id vec vlen (posFromHilo posH posL) = r at hf ⊢
  obtain ⟨r1, r2, t⟩ := r
  cases t
  cases hf
  cases rw <;> dsimp only <;> split_ifs <;> rfl

theorem sysPreadvPwritev_eq_at_quiet :
    0 ≤ posFromHilo 0 10 ∧ Sys.quiet.fget 3 = some 0 ∧
      hasFlag (Sys.quiet.files 0).mode Rw.read.positionedBit = true ∧
      sysPreadvPwritev Kernel.quiet .read Sys.quiet 3 0 2 10 0 =
        ((sysReadvWritev Kernel.quiet .read (Sys.quiet.setPos 0 (posFromHilo 0 10)) 3 0 2).1,
          { (sysReadvWritev Kernel.quiet .read (Sys.quiet.setPos 0 (posFromHilo 0 10)) 3 0 2).2 with
            files := Sys.quiet.files }) :=
  have hpos : 0 ≤ posFromHilo 0 10 := by
    rw [posFromHilo_eq]
    decide
  have hid : Sys.quiet.fget 3 = some 0 := rfl
  have hbit : hasFlag (Sys.quiet.files 0).mode Rw.read.positionedBit = true := rfl
  ⟨hpos, hid, hbit, sysPreadvPwritev_eq_at Kernel.quiet .read Sys.quiet 3 0 2 10 0 hpos hid hbit⟩

end SearchSyscall
