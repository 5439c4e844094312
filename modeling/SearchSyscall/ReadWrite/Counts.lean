import SearchSyscall.ReadWrite.Positions

/-!
# What a transfer returns

"Linux caps all read/write calls to MAX_RW_COUNT" (the comment in `rw_copy_check_uvector`):
`rw_verify_area` lets at most `MAX_RW_COUNT` bytes through and `rw_copy_check_uvector` cuts a vector
to as many.  So no transfer returns more, as long as the filesystem does its part: its methods, and
`do_splice_direct`, return at most the bytes they are asked for.

* `FileOps.Bounded`, `Sys.Bounded`, `Kernel.SpliceBounded`: methods that return at most the bytes
  they are asked for.
* One lemma per path: `vfsReadWrite_le`, `readvWritevBody_le`, `vfsReadvWritev_le`,
  `doSendfile_le`, then one per system call and `step_le` over all of them.
* `run_transfer_le`: after any sequence of calls from a well-formed process, every call but the two
  seeks returns at most `MAX_RW_COUNT`.

`sendfile` needs the input file's offsets to be signed: at a position past `2^63` of a file with
unsigned offsets, the cut of `do_sendfile` raises the count to `max - pos` (`sendfileCount_of_neg`).
-/

namespace SearchSyscall

variable {W : Type}

/-- Every `read`, `write` and `aio` method of the file returns at most the bytes it is asked for. -/
structure FileOps.Bounded (ops : FileOps W) : Prop where
  read : ∀ fn, ops.read = some fn → IoFn.ReturnsAtMost fn
  write : ∀ fn, ops.write = some fn → IoFn.ReturnsAtMost fn
  aioRead : ∀ fnv, ops.aioRead = some fnv → IovFn.ReturnsAtMost fnv
  aioWrite : ∀ fnv, ops.aioWrite = some fnv → IovFn.ReturnsAtMost fnv

/-- Every open file of the process has such methods. -/
def Sys.Bounded (s : Sys W) : Prop := ∀ j ops, (s.files j).ops = some ops → ops.Bounded

/-- `do_splice_direct` returns at most the `len` bytes it is given. -/
def Kernel.SpliceBounded (K : Kernel W) : Prop :=
  ∀ w i pos o opos len, (K.spliceDirect w i pos o opos len).1 ≤ len.toNat

theorem Errno.neg_le_maxRwCount (e : Errno) : e.neg ≤ maxRwCount := by
  have := e.neg_lt_zero
  omega

/-- The count a caller stores from a `rw_verify_area` or `rw_copy_check_uvector` that returned at
most `MAX_RW_COUNT`. -/
private theorem toNat_ofNat_le_maxRwCount {r : Int} (h : r ≤ maxRwCount) :
    (UInt64.ofNat r.toNat).toNat ≤ maxRwCount := by
  rw [uint64_toNat_ofNat (by unfold maxRwCount at h; omega)]
  omega

/-! ### The methods -/

theorem FileOps.Bounded.method {ops : FileOps W} (h : ops.Bounded) :
    ∀ (rw : Rw) fn, rw.method ops = some fn → IoFn.ReturnsAtMost fn
  | .read => h.read
  | .write => h.write

theorem FileOps.Bounded.aioMethod {ops : FileOps W} (h : ops.Bounded) :
    ∀ (rw : Rw) fnv, rw.aioMethod ops = some fnv → IovFn.ReturnsAtMost fnv
  | .read => h.aioRead
  | .write => h.aioWrite

theorem FileOps.Bounded.ioMethod {ops : FileOps W} (h : ops.Bounded) (rw : Rw) (fn : IoFn W)
    (hfn : rw.ioMethod ops = some fn) : IoFn.ReturnsAtMost fn := by
  unfold Rw.ioMethod at hfn
  split at hfn
  · next hm => exact Option.some_inj.mp hfn ▸ h.method rw _ hm
  · obtain ⟨fnv, hv, rfl⟩ := Option.map_eq_some'.mp hfn
    intro w buf len pos
    have := h.aioMethod rw fnv hv w [⟨buf, len⟩] len pos
    cases rw <;> exact this

/-- `do_loop_readv_writev` returns at most the bytes of the vector past the `ret` it starts from,
when each call of the method returns at most its segment's. -/
theorem doLoopReadvWritev_le {fn : IoFn W} (hfn : IoFn.ReturnsAtMost fn) :
    ∀ (w : W) (vs : List Iovec) (pos ret : Int), -2 ^ 63 ≤ ret →
      (doLoopReadvWritev fn w vs pos ret).1 ≤ ret + totalLen vs
  | _, [], _, _, _ => by simp [doLoopReadvWritev]
  | w, v :: vs, pos, ret, hret => by
    rcases ht : fn w v.base v.len pos with ⟨nr, p, w'⟩
    have hv : nr ≤ v.len.toNat := by simpa [ht] using hfn w v.base v.len pos
    have hwrap : 0 ≤ nr → toLoff (ret + nr) ≤ ret + nr := fun h => toLoff_le (by omega)
    have hrest := doLoopReadvWritev_le hfn w' vs p _ (inLoff_toLoff (ret + nr)).1
    simp only [doLoopReadvWritev, ht, totalLen_cons, apply_ite (fun r : Int × Int × W => r.1)]
    split_ifs <;> omega

/-- The vector method returns at most the `tot_len` bytes of the vector it is given. -/
theorem FileOps.Bounded.vecMethod {ops : FileOps W} (h : ops.Bounded) (rw : Rw) {mv}
    (hmv : rw.vecMethod ops = some mv) (w : W) {iov : List Iovec} {totLen : UInt64}
    (htot : totalLen iov = totLen.toNat) (pos : Int) : (mv w iov totLen pos).1 ≤ totLen.toNat := by
  unfold Rw.vecMethod at hmv
  split at hmv
  · next fnv hv =>
    cases hmv
    exact h.aioMethod rw fnv hv w iov totLen pos
  · obtain ⟨fn, hf, rfl⟩ := Option.map_eq_some'.mp hmv
    have := doLoopReadvWritev_le (h.method rw fn hf) w iov pos 0 (by decide)
    show (doLoopReadvWritev fn w iov pos 0).1 ≤ _
    omega

/-! ### The paths -/

section Paths

variable (K : Kernel W) (rw : Rw) (s : Sys W) (id : Nat)
  (hb : ∀ ops, (s.files id).ops = some ops → ops.Bounded)
include hb

theorem vfsReadWrite_le (buf : Int) (count : UInt64) (pos : Int) :
    (vfsReadWrite K rw s id buf count pos).1 ≤ maxRwCount := by
  rcases vfsReadWrite_cases K rw s id buf count pos with ⟨e, he, h⟩ | ⟨fn, hfn, -, h⟩ <;> rw [h]
  · omega
  obtain ⟨ops, hops, hfn⟩ := Option.bind_eq_some.mp hfn
  exact Int.le_trans ((hb ops hops).ioMethod rw fn hfn _ _ _ _)
    (Int.ofNat_le.mpr (toNat_ofNat_le_maxRwCount (rwVerifyArea_le K _ rw _ pos count)))

theorem readvWritevBody_le (vec : Int) (vlen : Nat) (pos : Int) :
    (readvWritevBody K rw s id vec vlen pos).1 ≤ maxRwCount := by
  rcases readvWritevBody_cases K rw s id vec vlen pos with
    ⟨e, he, h⟩ | ⟨ops, mv, hops, hmv, hc, -, h⟩ <;> rw [h]
  · omega
  obtain ⟨htot, hmax⟩ := rwCopyCheckUvector_of_nonneg (Int.le_of_lt hc)
  have hn : (UInt64.ofNat (rwCopyCheckUvector K s.world rw vec vlen uioFastiov true).1.toNat).toNat =
      (rwCopyCheckUvector K s.world rw vec vlen uioFastiov true).1.toNat :=
    uint64_toNat_ofNat (by unfold maxRwCount at hmax; omega)
  have := (hb ops hops).vecMethod rw hmv s.world (htot.trans hn.symm) pos
  show (mv _ _ _ pos).1 ≤ _
  omega

theorem vfsReadvWritev_le (vec : Int) (vlen : Nat) (pos : Int) :
    (vfsReadvWritev K rw s id vec vlen pos).1 ≤ maxRwCount := by
  obtain ⟨s', h, -⟩ := doReadvWritev_eq K rw s id vec vlen pos
  unfold vfsReadvWritev
  dsimp only
  split_ifs
  · exact ebadf.neg_le_maxRwCount
  · exact einval.neg_le_maxRwCount
  · rw [h]
    exact readvWritevBody_le K rw s id hb vec vlen pos

end Paths

section Sendfile

variable {K : Kernel W} (hK : K.SpliceBounded) {s : Sys W}
  (hs : ∀ j, unsignedOffsets (s.files j) = false) (hpos : ∀ j, 0 ≤ (s.files j).pos ∧ (s.files j).pos < 2 ^ 63)
include hK hs hpos

/-- On files with signed offsets, `do_sendfile` hands `do_splice_direct` at most the count the two
`rw_verify_area` calls let through, so it returns at most `MAX_RW_COUNT`. -/
theorem doSendfile_le (outFd inFd : Nat) {ppos : Option Int} (hppos : ∀ p ∈ ppos, InLoff p)
    (count : UInt64) {max : Int} (hmax : max = 0 ∨ InLoff max) :
    (doSendfile K s outFd inFd ppos count max).1 ≤ maxRwCount := by
  rcases doSendfile_cases K s outFd inFd ppos count max with
    ⟨e, he, h⟩ | ⟨i, o, c, -, -, hr, hw, hc, h⟩ <;> rw [h]
  · omega
  have hin : InLoff (ppos.getD (s.files i).pos) := by
    cases ppos with
    | none => exact show InLoff (s.files i).pos from ⟨by have := hpos i; omega, (hpos i).2⟩
    | some p => exact hppos p rfl
  have hout : InLoff (s.files o).pos := ⟨by have := hpos o; omega, (hpos o).2⟩
  obtain ⟨-, -, hfi, -⟩ := rwVerifyArea_of_nonneg K s.world .read (s.files i) count hin hr
  have hn1 := rwVerifyArea_toNat K s.world .read (s.files i) count hin hr
  have hn2 := rwVerifyArea_toNat K s.world .write (s.files o) _ hout hw
  simp only [RangeFits, hs i, Bool.false_eq_true, if_false] at hfi
  have hc' := sendfileCount_le hfi.1 (by omega) (sendfileMax_inLoff K _ _ hmax) hc
  have hsp := hK s.world i (ppos.getD (s.files i).pos) o (s.files o).pos c
  unfold spliceAccounted
  dsimp only
  split_ifs
  · exact eoverflow.neg_le_maxRwCount
  · omega

theorem sysSendfileWith_le {max : Int} (hmax : max = 0 ∨ InLoff max) (outFd inFd : Nat)
    (offset : Option Int) (count : UInt64) :
    (sysSendfileWith max K s outFd inFd offset count).1 ≤ maxRwCount := by
  unfold sysSendfileWith
  split
  · split
    · exact efault.neg_le_maxRwCount
    · next off hoff =>
      have hd : (doSendfile K s outFd inFd (some off) count max).1 ≤ maxRwCount :=
        doSendfile_le hK hs hpos outFd inFd
          (fun p hp => Option.some_inj.mp hp ▸ K.getUser_inLoff _ _ _ hoff) count hmax
      dsimp only
      split
      · exact efault.neg_le_maxRwCount
      · exact hd
  · exact doSendfile_le hK hs hpos outFd inFd (fun p h => absurd h (Option.not_mem_none p)) count
      (.inl rfl)

end Sendfile

/-! ### The system calls -/

section Calls

variable (K : Kernel W) (rw : Rw) {s : Sys W} (hb : s.Bounded)
include hb

theorem sysReadWrite_le (fd : Nat) (buf : Int) (count : UInt64) :
    (sysReadWrite K rw s fd buf count).1 ≤ maxRwCount := by
  unfold sysReadWrite
  split
  · exact ebadf.neg_le_maxRwCount
  · exact vfsReadWrite_le K rw s _ (hb _) buf count _

theorem sysPreadPwrite_le (fd : Nat) (buf : Int) (count : UInt64) (pos : Int) :
    (sysPreadPwrite K rw s fd buf count pos).1 ≤ maxRwCount := by
  unfold sysPreadPwrite
  split
  · exact einval.neg_le_maxRwCount
  · split
    · exact ebadf.neg_le_maxRwCount
    · split
      · exact espipe.neg_le_maxRwCount
      · exact vfsReadWrite_le K rw s _ (hb _) buf count pos

theorem sysReadvWritev_le (fd : Nat) (vec : Int) (vlen : Nat) :
    (sysReadvWritev K rw s fd vec vlen).1 ≤ maxRwCount := by
  unfold sysReadvWritev vectorAccounted
  dsimp only
  split
  · exact ebadf.neg_le_maxRwCount
  · exact vfsReadvWritev_le K rw s _ (hb _) vec vlen _

theorem sysPreadvPwritev_le (fd : Nat) (vec : Int) (vlen : Nat) (posL posH : UInt64) :
    (sysPreadvPwritev K rw s fd vec vlen posL posH).1 ≤ maxRwCount := by
  by_cases hneg : posFromHilo posH posL < 0
  · rw [sysPreadvPwritev, if_pos hneg]
    exact einval.neg_le_maxRwCount
  · rw [sysPreadvPwritev, if_neg hneg, vectorAccounted]
    split
    · exact ebadf.neg_le_maxRwCount
    · split
      · exact espipe.neg_le_maxRwCount
      · exact vfsReadvWritev_le K rw s _ (hb _) vec vlen _

end Calls

/-- The calls that move bytes and return how many: all but the two seeks. -/
def Call.transfers : Call → Bool
  | .lseek .. | .llseek .. => false
  | _ => true

/-- Every call but the two seeks returns at most `MAX_RW_COUNT`, from a well-formed process whose
methods, like `do_splice_direct`, return at most the bytes they are asked for. -/
theorem step_le (K : Kernel W) (hK : K.SpliceBounded) {s : Sys W} (hs : s.Wf) (hb : s.Bounded)
    {c : Call} (hc : c.transfers = true) : (step K s c).1 ≤ maxRwCount := by
  have hs' : ∀ j, unsignedOffsets (s.files j) = false := fun j => (hs j).signed
  have hpos : ∀ j, 0 ≤ (s.files j).pos ∧ (s.files j).pos < 2 ^ 63 :=
    fun j => ⟨(hs j).pos_nonneg, (hs j).pos_lt⟩
  cases c <;> simp only [Call.transfers, Bool.false_eq_true] at hc <;>
    simp only [step, sysRead, sysWrite, sysPread64, sysPwrite64, sysReadv, sysWritev, sysPreadv,
      sysPwritev, sysSendfile, sysSendfile64]
  · exact sysReadWrite_le K .read hb _ _ _
  · exact sysReadWrite_le K .write hb _ _ _
  · exact sysPreadPwrite_le K .read hb _ _ _ _
  · exact sysPreadPwrite_le K .write hb _ _ _ _
  · exact sysReadvWritev_le K .read hb _ _ _
  · exact sysReadvWritev_le K .write hb _ _ _
  · exact sysPreadvPwritev_le K .read hb _ _ _ _ _
  · exact sysPreadvPwritev_le K .write hb _ _ _ _ _
  · exact sysSendfileWith_le hK hs' hpos (.inr (by unfold InLoff maxNonLfs; omega)) _ _ _ _
  · exact sysSendfileWith_le hK hs' hpos (.inl rfl) _ _ _ _

/-! ### Over every run -/

theorem Sys.Bounded.movesWithin {s s' : Sys W} (h : s.Bounded) (hm : s.MovesWithin s') :
    s'.Bounded := by
  intro j ops hops
  rcases hm j with h' | ⟨p, v, -, -, h'⟩ <;> rw [h'] at hops <;> exact h j ops hops

theorem run_bounded (K : Kernel W) (hK : K.SpliceAdvances) :
    ∀ {s : Sys W} (cs : List Call), s.Wf → s.Bounded → (run K s cs).Bounded
  | _, [], _, hb => hb
  | _, c :: cs, hs, hb =>
    run_bounded K hK cs (hs.movesWithin (step_moves K hK hs c)) (hb.movesWithin (step_moves K hK hs c))

/-- After any sequence of system calls, from a process whose open files are well formed and with
methods and a `do_splice_direct` that move positions and return counts within the bytes they are
asked for, every call but the two seeks returns at most `MAX_RW_COUNT`. -/
theorem run_transfer_le (K : Kernel W) (hK : K.SpliceAdvances) (hK' : K.SpliceBounded) {s : Sys W}
    (hs : s.Wf) (hb : s.Bounded) (cs : List Call) {c : Call} (hc : c.transfers = true) :
    (step K (run K s cs) c).1 ≤ maxRwCount :=
  step_le K hK' (run_wf K hK cs hs) (run_bounded K hK cs hs hb) hc

theorem fullTransfer_returnsAtMost : IoFn.ReturnsAtMost fullTransfer := by
  intro _ _ count _
  dsimp only [fullTransfer]
  omega

theorem quiet_spliceBounded : Kernel.quiet.SpliceBounded :=
  fun _ _ _ _ _ _ => Int.ofNat_nonneg _

theorem Sys.quiet_bounded : Sys.quiet.Bounded := fun _ ops h => by
  cases h
  exact
    { read := fun _ h => Option.some_inj.mp h ▸ fullTransfer_returnsAtMost
      write := fun _ h => Option.some_inj.mp h ▸ fullTransfer_returnsAtMost
      aioRead := fun _ h => nomatch h
      aioWrite := fun _ h => nomatch h }

theorem run_transfer_le_quiet :
    Kernel.quiet.SpliceAdvances ∧ Kernel.quiet.SpliceBounded ∧ Sys.quiet.Wf ∧ Sys.quiet.Bounded ∧
      (Call.read 3 0 4096).transfers = true ∧
      (step Kernel.quiet (run Kernel.quiet Sys.quiet [.write 3 0 10, .readv 3 0 2])
        (.read 3 0 4096)).1 ≤ maxRwCount :=
  have hc : (Call.read 3 0 4096).transfers = true := rfl
  ⟨quiet_spliceAdvances, quiet_spliceBounded, Sys.quiet_wf, Sys.quiet_bounded, hc,
    run_transfer_le Kernel.quiet quiet_spliceAdvances quiet_spliceBounded Sys.quiet_wf
      Sys.quiet_bounded _ hc⟩

end SearchSyscall
