import SearchSyscall.ReadWrite.Verify

/-!
# `sendfile`

`do_sendfile(out_fd, in_fd, ppos, count, max)` (lines 891-977) copies up to `count` bytes from one
open file to another through `do_splice_direct`, reading at `*ppos`, the input file's own position
when `ppos` is null, and writing at the output file's position.  It checks the range on both files,
then cuts the count so that the input position does not pass `max`.  `sendfile` and `sendfile64`
(lines 979-1013) read the position from user memory and write it back, or leave `ppos` null.

* `sendfileCount_eq`: on a non-negative position whose range fits, the unsigned test of the cut is
  the signed one: the count is kept if the range ends by `max`, refused if the position is already
  there, and cut to `max - pos` otherwise.
* `doSendfile_moves`: when every open file has signed offsets and a position in `[0, 2^63)`, and
  `do_splice_direct` moves each position by at most the bytes it is given, both positions stay in
  `[0, 2^63)`.
-/

namespace SearchSyscall

variable {W : Type}

/-- Lines 940-946 of `do_sendfile`: the count cut so that reading ends at `max`, or `-EOVERFLOW` if
`pos` is already there.  `pos + count > max` compares as unsigned, `count` being a `size_t`. -/
def sendfileCount (pos : Int) (count : UInt64) (max : Int) : Except Int UInt64 :=
  if (toSize pos + count.toNat) % 2 ^ 64 > toSize max then
    if pos ≥ max then .error eoverflow.neg else .ok (UInt64.ofNat (toSize (max - pos)))
  else .ok count

/-- `*ppos = v`: the input file's position if `ppos` is null, the caller's offset otherwise. -/
def Sys.setPpos (s : Sys W) (i : Nat) : Option Int → Int → Option Int × Sys W
  | none, v => (none, s.setPos i v)
  | some _, v => (some v, s)

/-- Lines 959-969 of `do_sendfile`: `do_splice_direct` from the open file `i` at `pos` to `o` at its
position, which moves `o`'s position and then `*ppos`; the accounting; and `-EOVERFLOW` if `*ppos`
has passed `max`. -/
def spliceAccounted (K : Kernel W) (s : Sys W) (i o : Nat) (ppos : Option Int) (pos : Int)
    (count : UInt64) (max : Int) : Int × Option Int × Sys W :=
  let r := K.spliceDirect s.world i pos o (s.files o).pos count
  let p := ((s.setPos o r.2.2.1).setWorld r.2.2.2).setPpos i ppos r.2.1
  let s := (if 0 < r.1 then (p.2.addRchar r.1).addWchar r.1 else p.2).incSyscr.incSyscw
  (if r.2.1 > max then eoverflow.neg else r.1, p.1, s)

/-- Lines 937-938 of `do_sendfile`: the bound of the input position, `max`, or if that is zero the
smaller `s_maxbytes` of the two files. -/
def sendfileMax (K : Kernel W) (fi fo : OpenFile W) (max : Int) : Int :=
  if max = 0 then min (K.maxbytes fi.ino) (K.maxbytes fo.ino) else max

/-- `do_sendfile(out_fd, in_fd, ppos, count, max)` (lines 891-977): the value, the caller's offset
after (none if `ppos` is null), and the process after. -/
def doSendfile (K : Kernel W) (s : Sys W) (outFd inFd : Nat) (ppos : Option Int) (count : UInt64)
    (max : Int) : Int × Option Int × Sys W :=
  match s.fget inFd with
  | none => (ebadf.neg, ppos, s)
  | some i =>
    let fi := s.files i
    if hasFlag fi.mode fmodeRead = false then (ebadf.neg, ppos, s)
    else if ppos.isSome ∧ hasFlag fi.mode fmodePread = false then (espipe.neg, ppos, s)
    else
      let pos := ppos.getD fi.pos
      let retval := rwVerifyArea K s.world .read fi pos count
      if retval < 0 then (retval, ppos, s)
      else
        let count := UInt64.ofNat retval.toNat
        match s.fget outFd with
        | none => (ebadf.neg, ppos, s)
        | some o =>
          let fo := s.files o
          if hasFlag fo.mode fmodeWrite = false then (ebadf.neg, ppos, s)
          else
            let retval := rwVerifyArea K s.world .write fo fo.pos count
            if retval < 0 then (retval, ppos, s)
            else
              let count := UInt64.ofNat retval.toNat
              let max := sendfileMax K fi fo max
              match sendfileCount pos count max with
              | .error e => (e, ppos, s)
              | .ok count => spliceAccounted K s i o ppos pos count max

/-- `sendfile(out_fd, in_fd, offset, count)` and `sendfile64` (lines 979-1013): with an offset in
user memory, `do_sendfile` at it with the bound `max`, and the offset written back; without one, at
the input file's own position with no bound. -/
def sysSendfileWith (max : Int) (K : Kernel W) (s : Sys W) (outFd inFd : Nat) (offset : Option Int)
    (count : UInt64) : Int × Sys W :=
  match offset with
  | some ptr =>
    match K.getUser s.world ptr with
    | none => (efault.neg, s)
    | some off =>
      let r := doSendfile K s outFd inFd (some off) count max
      match K.putUser r.2.2.world ptr (r.2.1.getD off) with
      | none => (efault.neg, r.2.2)
      | some w => (r.1, r.2.2.setWorld w)
  | none =>
    let r := doSendfile K s outFd inFd none count 0
    (r.1, r.2.2)

/-- `sendfile(out_fd, in_fd, offset, count)` (lines 979-996): an `off_t` offset, bounded by
`MAX_NON_LFS`. -/
def sysSendfile (K : Kernel W) (s : Sys W) (outFd inFd : Nat) (offset : Option Int)
    (count : UInt64) : Int × Sys W :=
  sysSendfileWith maxNonLfs K s outFd inFd offset count

/-- `sendfile64(out_fd, in_fd, offset, count)` (lines 998-1013): a `loff_t` offset, with no bound
but the filesystems' `s_maxbytes`. -/
def sysSendfile64 (K : Kernel W) (s : Sys W) (outFd inFd : Nat) (offset : Option Int)
    (count : UInt64) : Int × Sys W :=
  sysSendfileWith 0 K s outFd inFd offset count

/-! ### The cut -/

/-- The cut on a non-negative position whose range fits: the count it hands on is at most the one it
was given, and the transfer then ends by `max`. -/
theorem sendfileCount_le {pos max : Int} {count c : UInt64} (hpos : 0 ≤ pos)
    (hfit : pos + count.toNat < 2 ^ 63) (hmax : InLoff max) (h : sendfileCount pos count max = .ok c) :
    c.toNat ≤ count.toNat := by
  have hs : (toSize pos : Int) = pos := toSize_of_nonneg ⟨by omega, by omega⟩ hpos
  unfold sendfileCount at h
  split_ifs at h with hgt hge
  · cases h
    have hm : (toSize max : Int) = max := by unfold toSize at hgt ⊢; unfold InLoff at hmax; omega
    have hd : toSize (max - pos) = (max - pos).toNat := by unfold toSize; unfold InLoff at hmax; omega
    rw [hd, uint64_toNat_ofNat (by unfold InLoff at hmax; omega)]
    omega
  · cases h
    exact Nat.le_refl _

/-- On a non-negative position whose range fits, and a `max` that is a non-negative `loff_t`, the
unsigned test of the cut is the signed one: the count is kept if reading ends by `max`, refused if the
position is already there, and cut to end at `max` otherwise. -/
theorem sendfileCount_eq {pos max : Int} {count : UInt64} (hpos : 0 ≤ pos)
    (hfit : pos + count.toNat < 2 ^ 63) (hmax : 0 ≤ max ∧ max < 2 ^ 63) :
    sendfileCount pos count max =
      if pos + count.toNat ≤ max then .ok count
      else if max ≤ pos then .error eoverflow.neg
      else .ok (UInt64.ofNat (max - pos).toNat) := by
  have hs : (toSize pos : Int) = pos := toSize_of_nonneg ⟨by omega, by omega⟩ hpos
  have hm : (toSize max : Int) = max := toSize_of_nonneg ⟨by omega, hmax.2⟩ hmax.1
  unfold sendfileCount
  -- the unsigned sum does not wrap, so the unsigned test is the signed one
  by_cases hle : pos + count.toNat ≤ max
  · rw [if_neg (by omega), if_pos hle]
  rw [if_pos (by omega), if_neg hle]
  by_cases hge : max ≤ pos
  · rw [if_pos hge, if_pos hge]
  · have hd : toSize (max - pos) = (max - pos).toNat := by unfold toSize; omega
    rw [if_neg hge, if_neg hge, hd]

theorem sendfileCount_eq_past_max :
    0 ≤ (2 : Int) ∧ (2 : Int) + (5 : UInt64).toNat < 2 ^ 63 ∧ (0 ≤ (4 : Int) ∧ (4 : Int) < 2 ^ 63) ∧
      sendfileCount 2 5 4 =
        if (2 : Int) + (5 : UInt64).toNat ≤ 4 then .ok 5
        else if (4 : Int) ≤ 2 then .error eoverflow.neg
        else .ok (UInt64.ofNat ((4 : Int) - 2).toNat) :=
  have h1 : 0 ≤ (2 : Int) := by decide
  have h2 : (2 : Int) + (5 : UInt64).toNat < 2 ^ 63 := by decide
  have h3 : 0 ≤ (4 : Int) ∧ (4 : Int) < 2 ^ 63 := by decide
  ⟨h1, h2, h3, sendfileCount_eq h1 h2 h3⟩

/-- On a file with unsigned offsets, a position at or past `2^63` is a negative `loff_t`, for which
`rw_verify_area` admits fewer than `-pos` bytes.  Then `pos + count > max` always holds as unsigned
and `pos >= max` never does as signed, so the cut replaces the count by `max - pos`, which is more
than was asked for. -/
theorem sendfileCount_of_neg {pos max : Int} {count : UInt64} (hpos : InLoff pos ∧ pos < 0)
    (hc : count.toNat < -pos) (hmax : 0 ≤ max ∧ max < 2 ^ 63) :
    sendfileCount pos count max = .ok (UInt64.ofNat (max - pos).toNat) ∧
      count.toNat < (UInt64.ofNat (max - pos).toNat).toNat := by
  unfold InLoff at hpos
  have hd : toSize (max - pos) = (max - pos).toNat := by unfold toSize; omega
  refine ⟨?_, by rw [uint64_toNat_ofNat (by omega)]; omega⟩
  unfold sendfileCount
  rw [if_pos (by unfold toSize; omega), if_neg (by omega), hd]

theorem sendfileCount_of_neg_past_end :
    (InLoff (-10) ∧ (-10 : Int) < 0) ∧ (5 : UInt64).toNat < -(-10 : Int) ∧
      (0 ≤ (100 : Int) ∧ (100 : Int) < 2 ^ 63) ∧
      (sendfileCount (-10) 5 100 = .ok (UInt64.ofNat ((100 : Int) - -10).toNat) ∧
        (5 : UInt64).toNat < (UInt64.ofNat ((100 : Int) - -10).toNat).toNat) :=
  have h1 : InLoff (-10) ∧ (-10 : Int) < 0 := ⟨by unfold InLoff; omega, by decide⟩
  have h2 : (5 : UInt64).toNat < -(-10 : Int) := by decide
  have h3 : 0 ≤ (100 : Int) ∧ (100 : Int) < 2 ^ 63 := by decide
  ⟨h1, h2, h3, sendfileCount_of_neg h1 h2 h3⟩

/-! ### What `do_sendfile` can do -/

theorem doSendfile_cases (K : Kernel W) (s : Sys W) (outFd inFd : Nat) (ppos : Option Int)
    (count : UInt64) (max : Int) :
    (∃ e < 0, doSendfile K s outFd inFd ppos count max = (e, ppos, s)) ∨
      ∃ i o c, s.fget inFd = some i ∧ s.fget outFd = some o ∧
        0 ≤ rwVerifyArea K s.world .read (s.files i) (ppos.getD (s.files i).pos) count ∧
        0 ≤ rwVerifyArea K s.world .write (s.files o) (s.files o).pos
          (UInt64.ofNat (rwVerifyArea K s.world .read (s.files i) (ppos.getD (s.files i).pos)
            count).toNat) ∧
        sendfileCount (ppos.getD (s.files i).pos)
          (UInt64.ofNat (rwVerifyArea K s.world .write (s.files o) (s.files o).pos
            (UInt64.ofNat (rwVerifyArea K s.world .read (s.files i) (ppos.getD (s.files i).pos)
              count).toNat)).toNat)
          (sendfileMax K (s.files i) (s.files o) max) = .ok c ∧
        doSendfile K s outFd inFd ppos count max =
          spliceAccounted K s i o ppos (ppos.getD (s.files i).pos) c
            (sendfileMax K (s.files i) (s.files o) max) := by
  -- follow the call through its early returns
  generalize hr : doSendfile K s outFd inFd ppos count max = r
  unfold doSendfile at hr
  split at hr
  · exact .inl ⟨_, Errno.neg_lt_zero _, hr.symm⟩
  next i hi =>
  dsimp only at hr
  split at hr
  · exact .inl ⟨_, Errno.neg_lt_zero _, hr.symm⟩
  split at hr
  · exact .inl ⟨_, Errno.neg_lt_zero _, hr.symm⟩
  split at hr
  · next hv => exact .inl ⟨_, hv, hr.symm⟩
  next hv =>
  split at hr
  · exact .inl ⟨_, Errno.neg_lt_zero _, hr.symm⟩
  next o ho =>
  split at hr
  · exact .inl ⟨_, Errno.neg_lt_zero _, hr.symm⟩
  split at hr
  · next hv' => exact .inl ⟨_, hv', hr.symm⟩
  next hv' =>
  split at hr
  · next e he =>
    refine .inl ⟨e, ?_, hr.symm⟩
    unfold sendfileCount at he
    split_ifs at he
    cases he
    exact Errno.neg_lt_zero _
  · next c hc =>
    exact .inr ⟨i, o, c, hi, ho, Int.not_lt.mp hv, Int.not_lt.mp hv', hc, hr.symm⟩

/-- `sendfile` leaves the process as it was, or as `do_sendfile` leaves it, the world then changed
by writing the offset back. -/
theorem sysSendfileWith_cases (max : Int) (K : Kernel W) (s : Sys W) (outFd inFd : Nat)
    (offset : Option Int) (count : UInt64) :
    (sysSendfileWith max K s outFd inFd offset count).2 = s ∨
      ∃ ppos m w, (sysSendfileWith max K s outFd inFd offset count).2 =
        (doSendfile K s outFd inFd ppos count m).2.2.setWorld w := by
  unfold sysSendfileWith
  split
  · split
    · exact .inl rfl
    · next off _ =>
      dsimp only
      split
      · exact .inr ⟨some off, max, (doSendfile K s outFd inFd (some off) count max).2.2.world, rfl⟩
      · next w _ => exact .inr ⟨some off, max, w, rfl⟩
  · exact .inr ⟨none, 0, (doSendfile K s outFd inFd none count 0).2.2.world, rfl⟩

/-! ### Positions -/

/-- `do_splice_direct` moves each of the two positions forward by at most the `len` bytes it is
given. -/
def Kernel.SpliceAdvances (K : Kernel W) : Prop :=
  ∀ w i pos o opos len,
    (pos ≤ (K.spliceDirect w i pos o opos len).2.1 ∧
      (K.spliceDirect w i pos o opos len).2.1 ≤ pos + len.toNat) ∧
    (opos ≤ (K.spliceDirect w i pos o opos len).2.2.1 ∧
      (K.spliceDirect w i pos o opos len).2.2.1 ≤ opos + len.toNat)

private theorem spliceAccounted_moves {K : Kernel W} (hK : K.SpliceAdvances) {s : Sys W} {i o : Nat}
    {ppos : Option Int} {pos : Int} {c : UInt64} (max : Int) (hpos : 0 ≤ pos)
    (hin : pos + c.toNat < 2 ^ 63) (hout : 0 ≤ (s.files o).pos ∧ (s.files o).pos + c.toNat < 2 ^ 63) :
    Sys.MovesWithin s (spliceAccounted K s i o ppos pos c max).2.2 := by
  obtain ⟨⟨hi1, hi2⟩, ho1, ho2⟩ := hK s.world i pos o (s.files o).pos c
  have hset := Sys.movesWithin_setPos s o (p := (K.spliceDirect s.world i pos o (s.files o).pos c).2.2.1)
    ⟨by omega, by omega⟩
  have hppos : Sys.MovesWithin s
      (((s.setPos o (K.spliceDirect s.world i pos o (s.files o).pos c).2.2.1).setWorld
        (K.spliceDirect s.world i pos o (s.files o).pos c).2.2.2).setPpos i ppos
        (K.spliceDirect s.world i pos o (s.files o).pos c).2.1).2 := by
    cases ppos
    · exact hset.trans (Sys.movesWithin_setPos _ i ⟨by omega, by omega⟩)
    · exact hset
  unfold spliceAccounted
  dsimp only
  refine hppos.trans (Sys.MovesWithin.of_files_eq ?_)
  split_ifs <;> rfl

theorem sendfileMax_inLoff (K : Kernel W) (fi fo : OpenFile W) {max : Int} (h : max = 0 ∨ InLoff max) :
    InLoff (sendfileMax K fi fo max) := by
  unfold sendfileMax
  split_ifs with h0
  · have hi := K.maxbytes_inLoff fi.ino
    have ho := K.maxbytes_inLoff fo.ino
    unfold InLoff at *
    omega
  · exact h.resolve_left h0

/-- With the caller's offset, `*ppos` is the caller's: `do_splice_direct` moves only the output
file's position. -/
private theorem files_spliceAccounted_some (K : Kernel W) (s : Sys W) (i o : Nat) (p pos : Int) (c : UInt64)
    (max : Int) :
    (spliceAccounted K s i o (some p) pos c max).2.2.files =
      (s.setPos o (K.spliceDirect s.world i pos o (s.files o).pos c).2.2.1).files := by
  unfold spliceAccounted
  dsimp only
  split_ifs <;> simp [Sys.setPpos, Sys.setWorld]

/-- With an offset in user memory, `sendfile` and `sendfile64` move the output file's position and
no other: the input file's stays where it was. -/
theorem sysSendfileWith_offset_files (max : Int) (K : Kernel W) (s : Sys W) (outFd inFd : Nat)
    (ptr : Int) (count : UInt64) {j : Nat} (hj : s.fget outFd ≠ some j) :
    (sysSendfileWith max K s outFd inFd (some ptr) count).2.files j = s.files j := by
  have hd : ∀ off, (doSendfile K s outFd inFd (some off) count max).2.2.files j = s.files j := by
    intro off
    rcases doSendfile_cases K s outFd inFd (some off) count max with
      ⟨e, -, h⟩ | ⟨i, o, c, -, ho, -, -, -, h⟩
    · rw [h]
    · rw [h, files_spliceAccounted_some]
      simp only [Sys.setPos, Sys.files_setFile]
      rw [if_neg (show ¬j = o from fun h' => hj (h' ▸ ho))]
  unfold sysSendfileWith
  dsimp only
  split
  · rfl
  · split
    · exact hd _
    · exact hd _

theorem sysSendfileWith_offset_files_quiet :
    Sys.quiet.fget 3 ≠ some 1 ∧
      (sysSendfileWith maxNonLfs Kernel.quiet Sys.quiet 3 3 (some 64) 4096).2.files 1 = Sys.quiet.files 1 :=
  have h : Sys.quiet.fget 3 ≠ some 1 := by decide
  ⟨h, sysSendfileWith_offset_files maxNonLfs Kernel.quiet Sys.quiet 3 3 64 4096 h⟩

section Moves

variable {K : Kernel W} (hK : K.SpliceAdvances) {s : Sys W}
  (hs : ∀ j, unsignedOffsets (s.files j) = false) (hpos : ∀ j, 0 ≤ (s.files j).pos ∧ (s.files j).pos < 2 ^ 63)
include hK hs hpos

theorem doSendfile_moves (outFd inFd : Nat) {ppos : Option Int} (hppos : ∀ p ∈ ppos, InLoff p)
    (count : UInt64) {max : Int} (hmax : max = 0 ∨ InLoff max) :
    Sys.MovesWithin s (doSendfile K s outFd inFd ppos count max).2.2 := by
  rcases doSendfile_cases K s outFd inFd ppos count max with
    ⟨e, -, h⟩ | ⟨i, o, c, -, -, hr, hw, hc, h⟩
  · rw [h]; exact .refl s
  have hin : InLoff (ppos.getD (s.files i).pos) := by
    cases ppos with
    | none => exact show InLoff (s.files i).pos from ⟨by have := hpos i; omega, (hpos i).2⟩
    | some p => exact hppos p rfl
  have hout : InLoff (s.files o).pos := ⟨by have := hpos o; omega, (hpos o).2⟩
  obtain ⟨-, -, hfi, -⟩ := rwVerifyArea_of_nonneg K s.world .read (s.files i) count hin hr
  obtain ⟨-, -, hfo, -⟩ := rwVerifyArea_of_nonneg K s.world .write (s.files o) _ hout hw
  have hn1 := rwVerifyArea_toNat K s.world .read (s.files i) count hin hr
  have hn2 := rwVerifyArea_toNat K s.world .write (s.files o) _ hout hw
  simp only [RangeFits, hs i, hs o, Bool.false_eq_true, if_false] at hfi hfo
  have hc' := sendfileCount_le hfi.1 (by omega) (sendfileMax_inLoff K _ _ hmax) hc
  rw [h]
  exact spliceAccounted_moves hK _ hfi.1 (by omega) ⟨hfo.1, by omega⟩

theorem sysSendfileWith_moves {max : Int} (hmax : max = 0 ∨ InLoff max) (outFd inFd : Nat)
    (offset : Option Int) (count : UInt64) :
    Sys.MovesWithin s (sysSendfileWith max K s outFd inFd offset count).2 := by
  unfold sysSendfileWith
  split
  · next ptr =>
    split
    · exact .refl s
    · next off hoff =>
      have hm : Sys.MovesWithin s (doSendfile K s outFd inFd (some off) count max).2.2 :=
        doSendfile_moves hK hs hpos outFd inFd
          (fun p hp => Option.some_inj.mp hp ▸ K.getUser_inLoff _ _ _ hoff) count hmax
      dsimp only
      split
      · exact hm
      · exact hm.trans (Sys.MovesWithin.of_files_eq rfl)
  · exact doSendfile_moves hK hs hpos outFd inFd (fun p h => absurd h (Option.not_mem_none p)) count
      (.inl rfl)

end Moves

end SearchSyscall
