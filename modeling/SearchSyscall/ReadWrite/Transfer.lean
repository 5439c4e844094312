import SearchSyscall.ReadWrite.Verify
import SearchSyscall.ReadWrite.Iovec

/-!
# Moving bytes through an open file

`vfs_read` and `vfs_write` (lines 369-395, 425-451) check a request for `count` bytes at a position,
hand it to the file's `read` or `write` method, or to `do_sync_read` or `do_sync_write` over its
`aio` method, and account for it.  `vfs_readv` and `vfs_writev` (lines 767-789) do the same for a
vector, through `do_readv_writev` (lines 714-765).  Each works on the open file `id` of the process
and on a position of the caller's, which it returns moved; the file itself it leaves as it was
(`files_vfsReadWrite`, `files_vfsReadvWritev`).

* `vfsReadWrite_cases`: a transfer is refused with a negative value and changes nothing, or passes
  `rw_verify_area` and is handed to the method with the count that check returns
  (`transferAccounted`).
* `vfsReadWrite_pos`, `vfsReadvWritev_pos`: on a file with signed offsets, at a position in
  `[0, 2^63)`, whose methods move the position by at most the bytes they are asked for, the
  position returned is again in `[0, 2^63)`.
-/

namespace SearchSyscall

variable {W : Type}

/-- `do_sync_read(filp, buf, len, ppos)` (lines 343-365): the `aio_read` method on the one-segment
vector of the buffer. -/
def doSyncRead (fnv : IovFn W) : IoFn W :=
  fun w buf len pos => doSyncReadvWritev fnv w [⟨buf, len⟩] len pos

/-- `do_sync_write(filp, buf, len, ppos)` (lines 399-421): the `aio_write` method on the
one-segment vector of the buffer. -/
def doSyncWrite (fnv : IovFn W) : IoFn W :=
  fun w buf len pos => doSyncReadvWritev fnv w [⟨buf, len⟩] len pos

/-- `do_sync_read` or `do_sync_write`. -/
def Rw.doSync : Rw → IovFn W → IoFn W
  | .read => doSyncRead
  | .write => doSyncWrite

/-- The function `vfs_read` or `vfs_write` calls (lines 383-386, 439-442): the plain method, or the
`aio` one through `do_sync_read` or `do_sync_write`; none if the file has neither. -/
def Rw.ioMethod (rw : Rw) (ops : FileOps W) : Option (IoFn W) :=
  match rw.method ops with
  | some fn => some fn
  | none => (rw.aioMethod ops).map rw.doSync

/-- Lines 382-391 of `vfs_read` (438-447 of `vfs_write`): the method called with the count that
`rw_verify_area` allowed, the `fsnotify` event and `rchar` or `wchar` if it moved bytes, and
`syscr` or `syscw` in any case. -/
def transferAccounted (rw : Rw) (fn : IoFn W) (s : Sys W) (id : Nat) (buf : Int) (count : UInt64)
    (pos : Int) : Int × Int × Sys W :=
  let r := fn s.world buf count pos
  let s := s.setWorld r.2.2
  (r.1, r.2.1, (if 0 < r.1 then (s.notify (rw.note id)).addChars rw r.1 else s).incCalls rw)

/-- `vfs_read(file, buf, count, pos)` or `vfs_write(file, buf, count, pos)` (lines 369-395,
425-451) on the open file `id`: the value, `*pos` after, and the process after. -/
def vfsReadWrite (K : Kernel W) (rw : Rw) (s : Sys W) (id : Nat) (buf : Int) (count : UInt64)
    (pos : Int) : Int × Int × Sys W :=
  let f := s.files id
  if hasFlag f.mode rw.modeBit = false then (ebadf.neg, pos, s)
  else match f.ops.bind rw.ioMethod with
    | none => (einval.neg, pos, s)
    | some fn =>
      if K.accessOk rw.verifyWrite buf count = false then (efault.neg, pos, s)
      else
        let ret := rwVerifyArea K s.world rw f pos count
        if ret < 0 then (ret, pos, s)
        else transferAccounted rw fn s id buf (UInt64.ofNat ret.toNat) pos

/-- `vfs_read(file, buf, count, pos)` (lines 369-395). -/
def vfsRead (K : Kernel W) (s : Sys W) (id : Nat) (buf : Int) (count : UInt64) (pos : Int) :
    Int × Int × Sys W :=
  vfsReadWrite K .read s id buf count pos

/-- `vfs_write(file, buf, count, pos)` (lines 425-451). -/
def vfsWrite (K : Kernel W) (s : Sys W) (id : Nat) (buf : Int) (count : UInt64) (pos : Int) :
    Int × Int × Sys W :=
  vfsReadWrite K .write s id buf count pos

/-- How `do_readv_writev` moves a checked vector of `tot_len` bytes (lines 740-753): through
`do_sync_readv_writev` over the `aio` method if the file has one, through `do_loop_readv_writev`
over the plain one otherwise. -/
def Rw.vecMethod (rw : Rw) (ops : FileOps W) :
    Option (W → List Iovec → UInt64 → Int → Int × Int × W) :=
  match rw.aioMethod ops with
  | some fnv => some (doSyncReadvWritev fnv)
  | none => (rw.method ops).map fun fn w iov _ pos => doLoopReadvWritev fn w iov pos 0

/-- Lines 725-753 of `do_readv_writev(type, file, uvector, nr_segs, pos)`, up to `out`.  A file
with neither method, on which the source would call a null `fn` and which `vfs_readv` and
`vfs_writev` never pass here, is refused with `-EINVAL`. -/
def readvWritevBody (K : Kernel W) (rw : Rw) (s : Sys W) (id : Nat) (uvector : Int) (nrSegs : Nat)
    (pos : Int) : Int × Int × Sys W :=
  let f := s.files id
  match f.ops with
  | none => (einval.neg, pos, s)
  | some ops =>
    let c := rwCopyCheckUvector K s.world rw uvector nrSegs uioFastiov true
    if c.1 ≤ 0 then (c.1, pos, s)
    else
      let totLen := UInt64.ofNat c.1.toNat
      let ret := rwVerifyArea K s.world rw f pos totLen
      if ret < 0 then (ret, pos, s)
      else match rw.vecMethod ops with
        | none => (einval.neg, pos, s)
        | some mv =>
          let r := mv s.world c.2 totLen pos
          (r.1, r.2.1, s.setWorld r.2.2)

/-- `do_readv_writev(type, file, uvector, nr_segs, pos)` (lines 714-765): the body, then at `out`
the `fsnotify` event, which a read raises whenever it did not fail, even if it moved nothing. -/
def doReadvWritev (K : Kernel W) (rw : Rw) (s : Sys W) (id : Nat) (uvector : Int) (nrSegs : Nat)
    (pos : Int) : Int × Int × Sys W :=
  let r := readvWritevBody K rw s id uvector nrSegs pos
  if 0 < r.1 + (if rw = .read then 1 else 0) then (r.1, r.2.1, r.2.2.notify (rw.note id)) else r

/-- `vfs_readv(file, vec, vlen, pos)` or `vfs_writev(file, vec, vlen, pos)` (lines 767-789). -/
def vfsReadvWritev (K : Kernel W) (rw : Rw) (s : Sys W) (id : Nat) (vec : Int) (vlen : Nat)
    (pos : Int) : Int × Int × Sys W :=
  let f := s.files id
  if hasFlag f.mode rw.modeBit = false then (ebadf.neg, pos, s)
  else if (f.ops.bind rw.ioMethod).isNone then (einval.neg, pos, s)
  else doReadvWritev K rw s id vec vlen pos

/-- `vfs_readv(file, vec, vlen, pos)` (lines 767-776). -/
def vfsReadv (K : Kernel W) (s : Sys W) (id : Nat) (vec : Int) (vlen : Nat) (pos : Int) :
    Int × Int × Sys W :=
  vfsReadvWritev K .read s id vec vlen pos

/-- `vfs_writev(file, vec, vlen, pos)` (lines 780-789). -/
def vfsWritev (K : Kernel W) (s : Sys W) (id : Nat) (vec : Int) (vlen : Nat) (pos : Int) :
    Int × Int × Sys W :=
  vfsReadvWritev K .write s id vec vlen pos

/-! ### What a transfer can do -/

theorem vfsReadWrite_cases (K : Kernel W) (rw : Rw) (s : Sys W) (id : Nat) (buf : Int)
    (count : UInt64) (pos : Int) :
    (∃ e < 0, vfsReadWrite K rw s id buf count pos = (e, pos, s)) ∨
      ∃ fn, (s.files id).ops.bind rw.ioMethod = some fn ∧
        0 ≤ rwVerifyArea K s.world rw (s.files id) pos count ∧
        vfsReadWrite K rw s id buf count pos = transferAccounted rw fn s id buf
          (UInt64.ofNat (rwVerifyArea K s.world rw (s.files id) pos count).toNat) pos := by
  unfold vfsReadWrite
  dsimp only
  split
  · exact .inl ⟨_, Errno.neg_lt_zero _, rfl⟩
  split
  · exact .inl ⟨_, Errno.neg_lt_zero _, rfl⟩
  next fn hfn =>
  split
  · exact .inl ⟨_, Errno.neg_lt_zero _, rfl⟩
  split
  · next hv => exact .inl ⟨_, hv, rfl⟩
  · next hv => exact .inr ⟨fn, hfn, Int.not_lt.mp hv, rfl⟩

theorem readvWritevBody_cases (K : Kernel W) (rw : Rw) (s : Sys W) (id : Nat) (vec : Int)
    (vlen : Nat) (pos : Int) :
    (∃ e ≤ 0, readvWritevBody K rw s id vec vlen pos = (e, pos, s)) ∨
      ∃ ops mv, (s.files id).ops = some ops ∧ rw.vecMethod ops = some mv ∧
        0 < (rwCopyCheckUvector K s.world rw vec vlen uioFastiov true).1 ∧
        0 ≤ rwVerifyArea K s.world rw (s.files id) pos
          (UInt64.ofNat (rwCopyCheckUvector K s.world rw vec vlen uioFastiov true).1.toNat) ∧
        readvWritevBody K rw s id vec vlen pos =
          let r := mv s.world (rwCopyCheckUvector K s.world rw vec vlen uioFastiov true).2
            (UInt64.ofNat (rwCopyCheckUvector K s.world rw vec vlen uioFastiov true).1.toNat) pos
          (r.1, r.2.1, s.setWorld r.2.2) := by
  unfold readvWritevBody
  dsimp only
  split
  · exact .inl ⟨_, Int.le_of_lt (Errno.neg_lt_zero _), rfl⟩
  next ops hops =>
  split
  · next hc => exact .inl ⟨_, hc, rfl⟩
  next hc =>
  split
  · next hv => exact .inl ⟨_, Int.le_of_lt hv, rfl⟩
  next hv =>
  split
  · exact .inl ⟨_, Int.le_of_lt (Errno.neg_lt_zero _), rfl⟩
  · next mv hmv => exact .inr ⟨ops, mv, hops, hmv, Int.not_le.mp hc, Int.not_lt.mp hv, rfl⟩

/-- `do_readv_writev` is its body followed, at `out`, by at most one `fsnotify` event. -/
theorem doReadvWritev_eq (K : Kernel W) (rw : Rw) (s : Sys W) (id : Nat) (vec : Int) (vlen : Nat)
    (pos : Int) :
    ∃ s', (doReadvWritev K rw s id vec vlen pos) =
        ((readvWritevBody K rw s id vec vlen pos).1, (readvWritevBody K rw s id vec vlen pos).2.1, s') ∧
      (s' = (readvWritevBody K rw s id vec vlen pos).2.2 ∨
        s' = (readvWritevBody K rw s id vec vlen pos).2.2.notify (rw.note id)) := by
  unfold doReadvWritev
  dsimp only
  by_cases h : 0 < (readvWritevBody K rw s id vec vlen pos).1 + (if rw = .read then 1 else 0)
  · exact ⟨_, if_pos h, .inr rfl⟩
  · exact ⟨_, if_neg h, .inl rfl⟩

/-! ### The open files are left as they were -/

@[simp] theorem files_transferAccounted (rw : Rw) (fn : IoFn W) (s : Sys W) (id : Nat) (buf : Int)
    (count : UInt64) (pos : Int) : (transferAccounted rw fn s id buf count pos).2.2.files = s.files := by
  simp only [transferAccounted]
  split_ifs <;> simp [Sys.setWorld, Sys.notify]

theorem files_vfsReadWrite (K : Kernel W) (rw : Rw) (s : Sys W) (id : Nat) (buf : Int)
    (count : UInt64) (pos : Int) : (vfsReadWrite K rw s id buf count pos).2.2.files = s.files := by
  rcases vfsReadWrite_cases K rw s id buf count pos with ⟨e, -, h⟩ | ⟨fn, -, -, h⟩ <;> simp [h]

/-- `vfs_readv` and `vfs_writev` change only the world and the `fsnotify` events. -/
theorem vfsReadvWritev_frame (K : Kernel W) (rw : Rw) (s : Sys W) (id : Nat) (vec : Int)
    (vlen : Nat) (pos : Int) :
    ∃ w ns, (vfsReadvWritev K rw s id vec vlen pos).2.2 = { s with world := w, notes := ns } := by
  have hbody : ∃ w, (readvWritevBody K rw s id vec vlen pos).2.2 = { s with world := w } := by
    rcases readvWritevBody_cases K rw s id vec vlen pos with ⟨e, -, h⟩ | ⟨_, _, _, _, _, _, h⟩ <;>
      rw [h]
    · exact ⟨s.world, rfl⟩
    · exact ⟨_, rfl⟩
  obtain ⟨w, hw⟩ := hbody
  obtain ⟨s', h, hs'⟩ := doReadvWritev_eq K rw s id vec vlen pos
  unfold vfsReadvWritev
  dsimp only
  split_ifs
  · exact ⟨s.world, s.notes, rfl⟩
  · exact ⟨s.world, s.notes, rfl⟩
  · rw [h]
    rcases hs' with rfl | rfl <;> rw [hw]
    · exact ⟨w, s.notes, rfl⟩
    · exact ⟨w, s.notes ++ [rw.note id], rfl⟩

theorem files_vfsReadvWritev (K : Kernel W) (rw : Rw) (s : Sys W) (id : Nat) (vec : Int)
    (vlen : Nat) (pos : Int) : (vfsReadvWritev K rw s id vec vlen pos).2.2.files = s.files := by
  obtain ⟨w, ns, h⟩ := vfsReadvWritev_frame K rw s id vec vlen pos
  rw [h]

theorem acct_vfsReadvWritev (K : Kernel W) (rw : Rw) (s : Sys W) (id : Nat) (vec : Int)
    (vlen : Nat) (pos : Int) : (vfsReadvWritev K rw s id vec vlen pos).2.2.acct = s.acct := by
  obtain ⟨w, ns, h⟩ := vfsReadvWritev_frame K rw s id vec vlen pos
  rw [h]

/-! ### Accounting -/

private theorem chars_transferAccounted (rw rw' : Rw) (fn : IoFn W) (s : Sys W) (id : Nat) (buf : Int)
    (count : UInt64) (pos : Int) :
    (transferAccounted rw fn s id buf count pos).2.2.acct.chars rw' =
      s.acct.chars rw' + if rw' = rw then (transferAccounted rw fn s id buf count pos).1.toNat else 0 := by
  simp only [transferAccounted]
  by_cases h : 0 < (fn s.world buf count pos).1
  · simp [h]
  · simp [h, Int.toNat_eq_zero.mpr (Int.not_lt.mp h)]

/-- `vfs_read` adds the bytes it returns to `rchar`, `vfs_write` to `wchar`, and neither touches the
other counter. -/
theorem chars_vfsReadWrite (K : Kernel W) (rw rw' : Rw) (s : Sys W) (id : Nat) (buf : Int)
    (count : UInt64) (pos : Int) :
    (vfsReadWrite K rw s id buf count pos).2.2.acct.chars rw' =
      s.acct.chars rw' + if rw' = rw then (vfsReadWrite K rw s id buf count pos).1.toNat else 0 := by
  rcases vfsReadWrite_cases K rw s id buf count pos with ⟨e, he, h⟩ | ⟨fn, -, -, h⟩ <;> rw [h]
  · simp [Int.toNat_eq_zero.mpr (Int.le_of_lt he)]
  · exact chars_transferAccounted rw rw' fn s id buf _ pos

/-! ### How far a transfer moves the position -/

/-- Every `read`, `write` and `aio` method of the file moves the position forward by at most the
bytes it is asked for. -/
structure FileOps.Advances (ops : FileOps W) : Prop where
  read : ∀ fn, ops.read = some fn → IoFn.Advances fn
  write : ∀ fn, ops.write = some fn → IoFn.Advances fn
  aioRead : ∀ fnv, ops.aioRead = some fnv → IovFn.Advances fnv
  aioWrite : ∀ fnv, ops.aioWrite = some fnv → IovFn.Advances fnv

theorem FileOps.Advances.method {ops : FileOps W} (h : ops.Advances) :
    ∀ (rw : Rw) fn, rw.method ops = some fn → IoFn.Advances fn
  | .read => h.read
  | .write => h.write

theorem FileOps.Advances.aioMethod {ops : FileOps W} (h : ops.Advances) :
    ∀ (rw : Rw) fnv, rw.aioMethod ops = some fnv → IovFn.Advances fnv
  | .read => h.aioRead
  | .write => h.aioWrite

theorem FileOps.Advances.ioMethod {ops : FileOps W} (h : ops.Advances) (rw : Rw) (fn : IoFn W)
    (hfn : rw.ioMethod ops = some fn) : IoFn.Advances fn := by
  unfold Rw.ioMethod at hfn
  split at hfn
  · next hm => exact Option.some_inj.mp hfn ▸ h.method rw _ hm
  · obtain ⟨fnv, hv, rfl⟩ := Option.map_eq_some'.mp hfn
    intro w buf len pos
    have := h.aioMethod rw fnv hv w [⟨buf, len⟩] len pos
    cases rw <;> exact this

/-- The vector method moves the position by at most the `tot_len` bytes of the vector it is given. -/
theorem FileOps.Advances.vecMethod {ops : FileOps W} (h : ops.Advances) (rw : Rw) {mv}
    (hmv : rw.vecMethod ops = some mv) (w : W) {iov : List Iovec} {totLen : UInt64}
    (htot : totalLen iov = totLen.toNat) (pos : Int) :
    pos ≤ (mv w iov totLen pos).2.1 ∧ (mv w iov totLen pos).2.1 ≤ pos + totLen.toNat := by
  unfold Rw.vecMethod at hmv
  split at hmv
  · next fnv hv =>
    cases hmv
    exact h.aioMethod rw fnv hv w iov totLen pos
  · obtain ⟨fn, hf, rfl⟩ := Option.map_eq_some'.mp hmv
    rw [← htot]
    exact doLoopReadvWritev_advances (h.method rw fn hf) w iov pos 0

/-- The position a transfer on a file with signed offsets reaches: a method called with the count
`rw_verify_area` allowed stays within `[0, 2^63)`. -/
theorem advances_of_verified {K : Kernel W} {w : W} {rw : Rw} {f : OpenFile W} {pos : Int}
    {count : UInt64} (hs : unsignedOffsets f = false) (hpos : 0 ≤ pos ∧ pos < 2 ^ 63)
    (hv : 0 ≤ rwVerifyArea K w rw f pos count) {p : Int} {n : Nat} (hn : n ≤ count.toNat)
    (hp : pos ≤ p ∧ p ≤ pos + n) : 0 ≤ p ∧ p < 2 ^ 63 := by
  obtain ⟨-, -, hfit, -⟩ := rwVerifyArea_of_nonneg K w rw f count ⟨by omega, hpos.2⟩ hv
  simp only [RangeFits, hs, Bool.false_eq_true, if_false] at hfit
  omega

section Positions

variable (K : Kernel W) (rw : Rw) (s : Sys W) (id : Nat) {pos : Int}
  (hs : unsignedOffsets (s.files id) = false) (hops : ∀ ops, (s.files id).ops = some ops → ops.Advances)
  (hpos : 0 ≤ pos ∧ pos < 2 ^ 63)
include hs hops hpos

theorem vfsReadWrite_pos (buf : Int) (count : UInt64) :
    0 ≤ (vfsReadWrite K rw s id buf count pos).2.1 ∧
      (vfsReadWrite K rw s id buf count pos).2.1 < 2 ^ 63 := by
  rcases vfsReadWrite_cases K rw s id buf count pos with ⟨e, -, h⟩ | ⟨fn, hfn, hv, h⟩
  · rw [h]; exact hpos
  obtain ⟨ops, hops', hfn⟩ := Option.bind_eq_some.mp hfn
  have hc := uint64_toNat_lt count
  have hle : (UInt64.ofNat (rwVerifyArea K s.world rw (s.files id) pos count).toNat).toNat ≤
      count.toNat := by
    obtain ⟨he, -⟩ := rwVerifyArea_of_nonneg K s.world rw (s.files id) count ⟨by omega, hpos.2⟩ hv
    rw [he, uint64_toNat_ofNat (by omega)]
    omega
  rw [h]
  exact advances_of_verified hs hpos hv hle ((hops ops hops').ioMethod rw fn hfn _ _ _ _)

theorem vfsReadvWritev_pos (vec : Int) (vlen : Nat) :
    0 ≤ (vfsReadvWritev K rw s id vec vlen pos).2.1 ∧
      (vfsReadvWritev K rw s id vec vlen pos).2.1 < 2 ^ 63 := by
  have hbody : 0 ≤ (readvWritevBody K rw s id vec vlen pos).2.1 ∧
      (readvWritevBody K rw s id vec vlen pos).2.1 < 2 ^ 63 := by
    rcases readvWritevBody_cases K rw s id vec vlen pos with
      ⟨e, -, h⟩ | ⟨ops, mv, hops', hmv, hc, hv, h⟩
    · rw [h]; exact hpos
    obtain ⟨htot, hmax⟩ := rwCopyCheckUvector_of_nonneg (Int.le_of_lt hc)
    have hn : (UInt64.ofNat (rwCopyCheckUvector K s.world rw vec vlen uioFastiov true).1.toNat).toNat =
        (rwCopyCheckUvector K s.world rw vec vlen uioFastiov true).1.toNat :=
      uint64_toNat_ofNat (by unfold maxRwCount at hmax; omega)
    rw [h]
    exact advances_of_verified hs hpos hv (Nat.le_refl _)
      ((hops ops hops').vecMethod rw hmv _ (htot.trans hn.symm) pos)
  obtain ⟨s', h, -⟩ := doReadvWritev_eq K rw s id vec vlen pos
  unfold vfsReadvWritev
  dsimp only
  split_ifs
  · exact hpos
  · exact hpos
  · rw [h]; exact hbody

end Positions

end SearchSyscall
