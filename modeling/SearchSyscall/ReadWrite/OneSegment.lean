import SearchSyscall.ReadWrite.Syscalls

/-!
# `readv` of one segment is `read`

`readv(fd, vec, 1)` with `vec = {buf, count}` and `read(fd, buf, count)` reach the file by two
different paths: `vfs_readv` copies the vector in and checks it in `rw_copy_check_uvector`, then
calls `rw_verify_area` on the capped total and moves it through `do_sync_readv_writev` or
`do_loop_readv_writev`; `vfs_read` checks the buffer with `access_ok`, calls `rw_verify_area` on
`count`, and moves it through the `read` method or `do_sync_read`.  The same holds for `writev` and
`write`.

`sysReadvWritev_single`: for `0 < count ≤ MAX_RW_COUNT`, on a file that has only one of the plain
and the `aio` method of the direction, the two calls return the same value and leave the same files
and the same world.  Each of the conditions is needed: a file with both methods is read through the
plain one by `read` and through the `aio` one by `readv`; a zero count reaches the method through
`read` but not through `readv`; past `MAX_RW_COUNT` the two call `rw_verify_area` on different
counts.  What the two calls still do differently is the accounting of a call that fails before the
method (`readv` counts it in `syscr`, `read` does not) and the `fsnotify` event of a read of no
bytes, which `readv` raises.
-/

namespace SearchSyscall

variable {W : Type}

/-- `rw_copy_check_uvector` on one segment of at most `MAX_RW_COUNT` bytes: the segment as it is,
or `-EFAULT` if `access_ok` refuses its buffer. -/
private theorem rwCopyCheckUvector_single {K : Kernel W} {w : W} {rw : Rw} {vec buf : Int} {count : UInt64}
    (hcopy : K.copyIovecs w vec 1 = some [⟨buf, count⟩]) (hmax : count.toNat ≤ maxRwCount) :
    rwCopyCheckUvector K w rw vec 1 uioFastiov true =
      if K.accessOk rw.verifyWrite buf count = false then (efault.neg, [⟨buf, count⟩])
      else ((count.toNat : Int), [⟨buf, count⟩]) := by
  have hv : toLoff count.toNat = count.toNat :=
    toLoff_of_inLoff ⟨by omega, by unfold maxRwCount at hmax; omega⟩
  unfold rwCopyCheckUvector
  rw [if_neg Nat.one_ne_zero, if_neg (show ¬1 > uioMaxiov by decide),
    if_neg (fun h : 1 > uioFastiov ∧ _ => absurd h.1 (by decide)), hcopy]
  dsimp only
  rw [checkUvectorLoop, hv, if_neg (by omega)]
  by_cases ha : K.accessOk rw.verifyWrite buf count = false
  · rw [if_pos ⟨rfl, ha⟩, if_pos ha]
  · rw [if_neg (fun h => ha h.2), if_neg ha, if_neg (by omega)]
    simp [checkUvectorLoop]

/-- `do_loop_readv_writev` on one segment is one call of the method. -/
private theorem doLoopReadvWritev_single (fn : IoFn W) (w : W) (v : Iovec) (pos : Int)
    (hfn : InLoff (fn w v.base v.len pos).1) :
    doLoopReadvWritev fn w [v] pos 0 = fn w v.base v.len pos := by
  rcases ht : fn w v.base v.len pos with ⟨nr, p, w'⟩
  rw [ht] at hfn
  simp only [doLoopReadvWritev, ht, zero_add, toLoff_of_inLoff hfn]
  split_ifs <;> simp

/-- On a file with one method of the direction, the vector path moves one segment as `vfs_read` or
`vfs_write` moves its buffer. -/
private theorem vecMethod_single {ops : FileOps W} {rw : Rw} {fn : IoFn W}
    (hone : rw.method ops = none ∨ rw.aioMethod ops = none) (hfn : rw.ioMethod ops = some fn) :
    ∃ mv, rw.vecMethod ops = some mv ∧
      ∀ w buf count pos, mv w [⟨buf, count⟩] count pos = fn w buf count pos := by
  unfold Rw.ioMethod at hfn
  unfold Rw.vecMethod
  cases ha : rw.aioMethod ops with
  | some fnv =>
    rw [hone.resolve_right (by rw [ha]; exact Option.some_ne_none fnv), ha] at hfn
    cases hfn
    exact ⟨_, rfl, fun _ _ _ _ => by cases rw <;> rfl⟩
  | none =>
    cases hm : rw.method ops with
    | none => rw [hm, ha] at hfn; cases hfn
    | some fn' =>
      rw [hm] at hfn
      cases hfn
      exact ⟨_, rfl, fun w buf count pos =>
        doLoopReadvWritev_single fn w ⟨buf, count⟩ pos (Rw.method_inLoff hm w buf count pos)⟩

private theorem world_transferAccounted (rw : Rw) (fn : IoFn W) (s : Sys W) (id : Nat) (buf : Int)
    (count : UInt64) (pos : Int) :
    (transferAccounted rw fn s id buf count pos).2.2.world = (fn s.world buf count pos).2.2 := by
  simp only [transferAccounted]
  split_ifs <;> simp only [Sys.world_incCalls, Sys.world_addChars] <;> rfl

section Single

variable (K : Kernel W) (rw : Rw) (s : Sys W) {vec buf : Int} {count : UInt64}
  (hcopy : K.copyIovecs s.world vec 1 = some [⟨buf, count⟩]) (h0 : 0 < count.toNat)
  (hmax : count.toNat ≤ maxRwCount)
include hcopy h0 hmax

private theorem vfsReadvWritev_single (id : Nat)
    (hone : ∀ ops, (s.files id).ops = some ops → rw.method ops = none ∨ rw.aioMethod ops = none)
    (pos : Int) :
    (vfsReadvWritev K rw s id vec 1 pos).1 = (vfsReadWrite K rw s id buf count pos).1 ∧
      (vfsReadvWritev K rw s id vec 1 pos).2.1 = (vfsReadWrite K rw s id buf count pos).2.1 ∧
      (vfsReadvWritev K rw s id vec 1 pos).2.2.world = (vfsReadWrite K rw s id buf count pos).2.2.world := by
  unfold vfsReadvWritev vfsReadWrite
  dsimp only
  by_cases hmode : hasFlag (s.files id).mode rw.modeBit = false
  · rw [if_pos hmode, if_pos hmode]
    exact ⟨rfl, rfl, rfl⟩
  rw [if_neg hmode, if_neg hmode]
  cases hfn : (s.files id).ops.bind rw.ioMethod with
  | none => exact ⟨rfl, rfl, rfl⟩
  | some fn =>
    obtain ⟨ops, hops, hfn'⟩ := Option.bind_eq_some.mp hfn
    obtain ⟨mv, hmv, hmv'⟩ := vecMethod_single (hone ops hops) hfn'
    rw [Option.isNone_some, if_neg Bool.false_ne_true]
    -- `do_readv_writev` adds at most an `fsnotify` event to its body
    obtain ⟨s', hd, hs'⟩ := doReadvWritev_eq K rw s id vec 1 pos
    have hw : s'.world = (readvWritevBody K rw s id vec 1 pos).2.2.world := by
      rcases hs' with rfl | rfl <;> rfl
    rw [hd]
    dsimp only
    rw [hw]
    unfold readvWritevBody
    dsimp only
    rw [hops, rwCopyCheckUvector_single hcopy hmax]
    dsimp only
    by_cases ha : K.accessOk rw.verifyWrite buf count = false
    · rw [if_pos ha, if_pos ha, if_pos (Int.le_of_lt (Errno.neg_lt_zero efault))]
      exact ⟨rfl, rfl, rfl⟩
    rw [if_neg ha, if_neg ha, if_neg (by omega), Int.toNat_ofNat, uint64_ofNat_toNat]
    by_cases hv : rwVerifyArea K s.world rw (s.files id) pos count < 0
    · rw [if_pos hv, if_pos hv]
      exact ⟨rfl, rfl, rfl⟩
    rw [if_neg hv, if_neg hv, hmv]
    dsimp only
    have hc : UInt64.ofNat (rwVerifyArea K s.world rw (s.files id) pos count).toNat = count := by
      rw [rwVerifyArea_eq_min K s.world rw (s.files id) pos count (Int.not_lt.mp hv),
        Int.toNat_ofNat, Nat.min_eq_left hmax, uint64_ofNat_toNat]
    rw [hc, hmv', world_transferAccounted]
    exact ⟨rfl, rfl, rfl⟩

/-- For `0 < count ≤ MAX_RW_COUNT`, on a file with only one of the plain and the `aio` method of the
direction, `readv(fd, vec, 1)` with `vec` holding `{buf, count}` returns what `read(fd, buf, count)`
returns and leaves the same open files and the same world; so do `writev` and `write`. -/
theorem sysReadvWritev_single (fd : Nat)
    (hone : ∀ id ops, s.fget fd = some id → (s.files id).ops = some ops →
      rw.method ops = none ∨ rw.aioMethod ops = none) :
    (sysReadvWritev K rw s fd vec 1).1 = (sysReadWrite K rw s fd buf count).1 ∧
      (sysReadvWritev K rw s fd vec 1).2.files = (sysReadWrite K rw s fd buf count).2.files ∧
      (sysReadvWritev K rw s fd vec 1).2.world = (sysReadWrite K rw s fd buf count).2.world := by
  unfold sysReadvWritev sysReadWrite vectorAccounted
  cases hfd : s.fget fd with
  | none =>
    dsimp only
    refine ⟨rfl, ?_, ?_⟩ <;> split_ifs <;>
      simp only [Sys.files_incCalls, Sys.files_addChars, Sys.world_incCalls, Sys.world_addChars]
  | some id =>
    obtain ⟨h1, h2, h3⟩ := vfsReadvWritev_single K rw s hcopy h0 hmax id (hone id · hfd) (s.files id).pos
    dsimp only
    refine ⟨h1, ?_, ?_⟩ <;> split_ifs <;>
      simp only [Sys.files_incCalls, Sys.files_addChars, Sys.files_setPos, files_vfsReadvWritev,
        files_vfsReadWrite, Sys.world_incCalls, Sys.world_addChars, Sys.world_setPos, h2, h3]

end Single

/-- `Kernel.quiet` with user memory whose vectors hold one-page segments. -/
def Kernel.pages : Kernel Unit :=
  { Kernel.quiet with
    copyIovecs := fun _ _ n => some (List.replicate n ⟨0, 4096⟩)
    copyIovecs_length := fun _ _ n _ h => Option.some_inj.mp h ▸ List.length_replicate n _ }

theorem sysReadvWritev_single_page :
    Kernel.pages.copyIovecs Sys.quiet.world 0 1 = some [⟨0, 4096⟩] ∧ 0 < (4096 : UInt64).toNat ∧
      (4096 : UInt64).toNat ≤ maxRwCount ∧
      (∀ id ops, Sys.quiet.fget 3 = some id → (Sys.quiet.files id).ops = some ops →
        Rw.read.method ops = none ∨ Rw.read.aioMethod ops = none) ∧
      ((sysReadvWritev Kernel.pages .read Sys.quiet 3 0 1).1 =
          (sysReadWrite Kernel.pages .read Sys.quiet 3 0 4096).1 ∧
        (sysReadvWritev Kernel.pages .read Sys.quiet 3 0 1).2.files =
          (sysReadWrite Kernel.pages .read Sys.quiet 3 0 4096).2.files ∧
        (sysReadvWritev Kernel.pages .read Sys.quiet 3 0 1).2.world =
          (sysReadWrite Kernel.pages .read Sys.quiet 3 0 4096).2.world) :=
  have hcopy : Kernel.pages.copyIovecs Sys.quiet.world 0 1 = some [⟨0, 4096⟩] := rfl
  have h0 : 0 < (4096 : UInt64).toNat := by decide
  have hmax : (4096 : UInt64).toNat ≤ maxRwCount := by decide
  have hone : ∀ id ops, Sys.quiet.fget 3 = some id → (Sys.quiet.files id).ops = some ops →
      Rw.read.method ops = none ∨ Rw.read.aioMethod ops = none := fun _ _ _ h => by
    cases h
    exact .inr rfl
  ⟨hcopy, h0, hmax, hone, sysReadvWritev_single Kernel.pages .read Sys.quiet hcopy h0 hmax 3 hone⟩

end SearchSyscall
