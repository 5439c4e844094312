import SearchSyscall.ReadWrite.Syscalls

/-!
# What a run of calls accounts and reports

Besides its value and the files it moves, each call of this file leaves two traces: the task's I/O
accounting, `current->ioac`, and the `fsnotify` events it raises.  Over whole runs:

* `run_chars`: a run without `sendfile` adds to `rchar` and to `wchar` exactly the bytes its calls
  return in that direction, a failed call adding nothing;
* `run_chars_balance`: over any run, `sendfile` included, `rchar` and `wchar` drift apart only by
  what the reading and the writing calls return, `sendfile` adding its bytes to both;
* `run_countsUpTo`: `syscr` and `syscw` never decrease, and a run counts each of its calls at most
  once in each, the seeks never;
* `run_appendsNotes`: events are only ever appended, at most one for each call that transfers in one
  direction, and none for the seeks and `sendfile`;
* `sysReadvWritev_zero`: `readv(fd, vec, 0)` moves nothing, yet raises `fsnotify_access` and counts
  in `syscr`, since `do_readv_writev` reports a read that did not fail (`ret + (type == READ) > 0`);
  `writev(fd, vec, 0)` only counts in `syscw`.
-/

namespace SearchSyscall

variable {W : Type}

/-! ### Bytes -/

/-- The bytes the calls `cs`, made one after the other from `s`, return in the direction `rw`. -/
def movedChars (K : Kernel W) (rw : Rw) : Sys W → List Call → Nat
  | _, [] => 0
  | s, c :: cs => c.chars rw (step K s c).1 + movedChars K rw (step K s c).2 cs

/-- A run of calls none of which is `sendfile` adds to `rchar` and to `wchar` exactly the bytes its
calls return in that direction. -/
theorem run_chars (K : Kernel W) (s : Sys W) (cs : List Call) (hcs : ∀ c ∈ cs, c.sends = false)
    (rw : Rw) : (run K s cs).acct.chars rw = s.acct.chars rw + movedChars K rw s cs := by
  induction cs generalizing s with
  | nil => rfl
  | cons c cs ih =>
    rw [run_cons, movedChars, ih (step K s c).2 fun c' h => hcs c' (List.mem_cons_of_mem c h),
      step_chars_eq K s (hcs c (List.mem_cons_self c cs)), Nat.add_assoc]

theorem run_chars_quiet :
    (∀ c ∈ [Call.read 3 0 4096, .readv 3 0 0, .write 3 0 10], c.sends = false) ∧
      (run Kernel.quiet Sys.quiet [.read 3 0 4096, .readv 3 0 0, .write 3 0 10]).acct.chars .read =
        Sys.quiet.acct.chars .read +
          movedChars Kernel.quiet .read Sys.quiet [.read 3 0 4096, .readv 3 0 0, .write 3 0 10] :=
  have hcs : ∀ c ∈ [Call.read 3 0 4096, .readv 3 0 0, .write 3 0 10], c.sends = false := by decide
  ⟨hcs, run_chars Kernel.quiet Sys.quiet _ hcs .read⟩

/-- `do_sendfile` adds the bytes `do_splice_direct` moved to `rchar` and to `wchar` alike. -/
private theorem chars_spliceAccounted (K : Kernel W) (s : Sys W) (i o : Nat) (ppos : Option Int) (pos : Int)
    (count : UInt64) (max : Int) :
    ∃ n, (spliceAccounted K s i o ppos pos count max).2.2.acct.chars .read = s.acct.chars .read + n ∧
      (spliceAccounted K s i o ppos pos count max).2.2.acct.chars .write = s.acct.chars .write + n := by
  unfold spliceAccounted
  dsimp only
  -- the bytes moved if there were any, nothing otherwise
  cases ppos <;> split_ifs <;> first | exact ⟨_, rfl, rfl⟩ | exact ⟨0, rfl, rfl⟩

private theorem chars_sysSendfileWith (max : Int) (K : Kernel W) (s : Sys W) (outFd inFd : Nat)
    (offset : Option Int) (count : UInt64) :
    ∃ n, (sysSendfileWith max K s outFd inFd offset count).2.acct.chars .read = s.acct.chars .read + n ∧
      (sysSendfileWith max K s outFd inFd offset count).2.acct.chars .write = s.acct.chars .write + n := by
  have hdo : ∀ ppos m, ∃ n,
      (doSendfile K s outFd inFd ppos count m).2.2.acct.chars .read = s.acct.chars .read + n ∧
        (doSendfile K s outFd inFd ppos count m).2.2.acct.chars .write = s.acct.chars .write + n :=
    fun ppos m => by
      rcases doSendfile_cases K s outFd inFd ppos count m with ⟨e, -, h⟩ | ⟨i, o, c, -, -, -, -, -, h⟩ <;>
        rw [h]
      · exact ⟨0, rfl, rfl⟩
      · exact chars_spliceAccounted K s i o ppos _ c _
  rcases sysSendfileWith_cases max K s outFd inFd offset count with h | ⟨ppos, m, w, h⟩ <;> rw [h]
  · exact ⟨0, rfl, rfl⟩
  · exact hdo ppos m

theorem Call.chars_of_sends {c : Call} (h : c.sends = true) (rw : Rw) (r : Int) : c.chars rw r = 0 := by
  cases c <;> first | rfl | exact absurd h Bool.false_ne_true

/-- One call moves `rchar` and `wchar` apart only by what it returns as read or as written:
`sendfile` adds the same count to both. -/
private theorem step_chars_balance (K : Kernel W) (s : Sys W) (c : Call) :
    (step K s c).2.acct.chars .read + s.acct.chars .write + c.chars .write (step K s c).1 =
      (step K s c).2.acct.chars .write + s.acct.chars .read + c.chars .read (step K s c).1 := by
  cases hc : c.sends
  · rw [step_chars_eq K s hc .read, step_chars_eq K s hc .write]
    omega
  · have hn : ∃ n, (step K s c).2.acct.chars .read = s.acct.chars .read + n ∧
        (step K s c).2.acct.chars .write = s.acct.chars .write + n := by
      cases c <;> first
        | exact absurd hc Bool.false_ne_true
        | exact chars_sysSendfileWith _ K s _ _ _ _
    obtain ⟨n, hr, hw⟩ := hn
    rw [hr, hw, Call.chars_of_sends hc, Call.chars_of_sends hc]
    omega

/-- Over any run, `sendfile` included, `rchar` and `wchar` drift apart only by the bytes that the
calls reading and the calls writing return. -/
theorem run_chars_balance (K : Kernel W) (s : Sys W) (cs : List Call) :
    (run K s cs).acct.chars .read + s.acct.chars .write + movedChars K .write s cs =
      (run K s cs).acct.chars .write + s.acct.chars .read + movedChars K .read s cs := by
  induction cs generalizing s with
  | nil =>
    rw [run_nil, movedChars, movedChars]
    omega
  | cons c cs ih =>
    have hstep := step_chars_balance K s c
    have hrun := ih (step K s c).2
    rw [run_cons, movedChars, movedChars]
    omega

/-! ### Calls counted -/

/-- `t` has counted in `syscr` (`rw = .read`) or `syscw` the calls `s` had, and at most `k` more. -/
def Sys.CountsUpTo (s t : Sys W) (rw : Rw) (k : Nat) : Prop :=
  s.acct.calls rw ≤ t.acct.calls rw ∧ t.acct.calls rw ≤ s.acct.calls rw + k

namespace Sys

theorem CountsUpTo.of_acct {s t : Sys W} {rw : Rw} {k : Nat} (h : t.acct = s.acct) :
    s.CountsUpTo t rw k := by
  unfold CountsUpTo
  rw [h]
  omega

theorem CountsUpTo.of_calls_eq {s t : Sys W} {rw : Rw} {k : Nat}
    (h : t.acct.calls rw = s.acct.calls rw + k) : s.CountsUpTo t rw k := by
  unfold CountsUpTo
  omega

theorem CountsUpTo.trans {s t u : Sys W} {rw : Rw} {k l : Nat} (h : s.CountsUpTo t rw k)
    (h' : t.CountsUpTo u rw l) : s.CountsUpTo u rw (k + l) := by
  unfold CountsUpTo at *
  omega

end Sys

theorem countsUpTo_vfsReadWrite (K : Kernel W) (rw rw' : Rw) (s : Sys W) (id : Nat) (buf : Int)
    (count : UInt64) (pos : Int) :
    s.CountsUpTo (vfsReadWrite K rw s id buf count pos).2.2 rw' (if rw' = rw then 1 else 0) := by
  rcases vfsReadWrite_cases K rw s id buf count pos with ⟨e, -, h⟩ | ⟨fn, -, -, h⟩ <;> rw [h]
  · exact .of_acct rfl
  · refine .of_calls_eq ?_
    unfold transferAccounted
    dsimp only
    rw [Sys.calls_incCalls]
    congr 1
    split_ifs <;> simp only [Sys.calls_addChars, Sys.acct_notify, Sys.acct_setWorld]

theorem countsUpTo_sysReadWrite (K : Kernel W) (rw rw' : Rw) (s : Sys W) (fd : Nat) (buf : Int)
    (count : UInt64) :
    s.CountsUpTo (sysReadWrite K rw s fd buf count).2 rw' (if rw' = rw then 1 else 0) := by
  unfold sysReadWrite
  split
  · exact .of_acct rfl
  · exact countsUpTo_vfsReadWrite K rw rw' s _ buf count _

theorem countsUpTo_sysPreadPwrite (K : Kernel W) (rw rw' : Rw) (s : Sys W) (fd : Nat) (buf : Int)
    (count : UInt64) (pos : Int) :
    s.CountsUpTo (sysPreadPwrite K rw s fd buf count pos).2 rw' (if rw' = rw then 1 else 0) := by
  unfold sysPreadPwrite
  by_cases hpos : pos < 0
  · rw [if_pos hpos]
    exact .of_acct rfl
  rw [if_neg hpos]
  cases s.fget fd with
  | none => exact .of_acct rfl
  | some id =>
    dsimp only
    by_cases hbit : hasFlag (s.files id).mode rw.positionedBit = false
    · rw [if_pos hbit]
      exact .of_acct rfl
    · rw [if_neg hbit]
      exact countsUpTo_vfsReadWrite K rw rw' s id buf count pos

theorem calls_vectorAccounted_eq (rw rw' : Rw) (r : Int × Sys W) :
    (vectorAccounted rw r).2.acct.calls rw' = r.2.acct.calls rw' + if rw' = rw then 1 else 0 := by
  unfold vectorAccounted
  rw [Sys.calls_incCalls]
  congr 1
  split_ifs
  · exact Sys.calls_addChars rw rw' r.2 r.1
  · rfl

theorem countsUpTo_sysReadvWritev (K : Kernel W) (rw rw' : Rw) (s : Sys W) (fd : Nat) (vec : Int)
    (vlen : Nat) :
    s.CountsUpTo (sysReadvWritev K rw s fd vec vlen).2 rw' (if rw' = rw then 1 else 0) := by
  refine .of_calls_eq ?_
  unfold sysReadvWritev
  rw [calls_vectorAccounted_eq]
  congr 1
  split
  · rfl
  · simp only [Sys.acct_setPos, acct_vfsReadvWritev]

theorem countsUpTo_sysPreadvPwritev (K : Kernel W) (rw rw' : Rw) (s : Sys W) (fd : Nat) (vec : Int)
    (vlen : Nat) (posL posH : UInt64) :
    s.CountsUpTo (sysPreadvPwritev K rw s fd vec vlen posL posH).2 rw' (if rw' = rw then 1 else 0) := by
  by_cases hneg : posFromHilo posH posL < 0
  · rw [sysPreadvPwritev, if_pos hneg]
    exact .of_acct rfl
  refine .of_calls_eq ?_
  rw [sysPreadvPwritev, if_neg hneg, calls_vectorAccounted_eq]
  congr 1
  split
  · rfl
  · split_ifs
    · rfl
    · simp only [acct_vfsReadvWritev]

theorem countsUpTo_sysSendfileWith (max : Int) (K : Kernel W) (s : Sys W) (outFd inFd : Nat)
    (offset : Option Int) (count : UInt64) (rw : Rw) :
    s.CountsUpTo (sysSendfileWith max K s outFd inFd offset count).2 rw 1 := by
  have hdo : ∀ ppos m, s.CountsUpTo (doSendfile K s outFd inFd ppos count m).2.2 rw 1 := fun ppos m => by
    rcases doSendfile_cases K s outFd inFd ppos count m with ⟨e, -, h⟩ | ⟨i, o, c, -, -, -, -, -, h⟩ <;>
      rw [h]
    · exact .of_acct rfl
    · -- `inc_syscr` and `inc_syscw` whatever `do_splice_direct` returned
      refine .of_calls_eq ?_
      unfold spliceAccounted
      dsimp only
      cases rw <;> cases ppos <;> split_ifs <;> rfl
  rcases sysSendfileWith_cases max K s outFd inFd offset count with h | ⟨ppos, m, w, h⟩ <;> rw [h]
  · exact .of_acct rfl
  · exact hdo ppos m

/-- Whether a call can count in `syscr` (`rw = .read`) or `syscw` (`rw = .write`): it transfers in
that direction, or it is `sendfile`, which counts in both. -/
def Call.counts (rw : Rw) (c : Call) : Bool := c.dir == some rw || c.sends

theorem Call.counts_of_dir {c : Call} {rw : Rw} (h : c.dir = some rw) (rw' : Rw) :
    (if c.counts rw' then 1 else 0) = if rw' = rw then 1 else 0 := by
  unfold Call.counts
  rw [h, Call.sends_of_dir h, Bool.or_false]
  by_cases hr : rw' = rw
  · subst hr
    rw [beq_self_eq_true, if_pos rfl, if_pos rfl]
  · rw [if_neg hr, if_neg (fun h' => hr (Option.some_inj.mp (beq_iff_eq.mp h')).symm)]

/-- One call counts itself at most once in `syscr` and in `syscw`, and only where it can. -/
private theorem step_countsUpTo (K : Kernel W) (s : Sys W) (c : Call) (rw : Rw) :
    s.CountsUpTo (step K s c).2 rw (if c.counts rw then 1 else 0) := by
  cases c with
  | lseek fd offset origin => exact .of_acct (acct_sysLseek K s fd _ origin)
  | llseek fd high low result origin => exact .of_acct (acct_sysLlseek K s fd high low result origin)
  | read fd buf count =>
    rw [Call.counts_of_dir (c := .read fd buf count) rfl]
    exact countsUpTo_sysReadWrite K .read rw s fd buf count
  | write fd buf count =>
    rw [Call.counts_of_dir (c := .write fd buf count) rfl]
    exact countsUpTo_sysReadWrite K .write rw s fd buf count
  | pread64 fd buf count pos =>
    rw [Call.counts_of_dir (c := .pread64 fd buf count pos) rfl]
    exact countsUpTo_sysPreadPwrite K .read rw s fd buf count _
  | pwrite64 fd buf count pos =>
    rw [Call.counts_of_dir (c := .pwrite64 fd buf count pos) rfl]
    exact countsUpTo_sysPreadPwrite K .write rw s fd buf count _
  | readv fd vec vlen =>
    rw [Call.counts_of_dir (c := .readv fd vec vlen) rfl]
    exact countsUpTo_sysReadvWritev K .read rw s fd vec vlen
  | writev fd vec vlen =>
    rw [Call.counts_of_dir (c := .writev fd vec vlen) rfl]
    exact countsUpTo_sysReadvWritev K .write rw s fd vec vlen
  | preadv fd vec vlen posL posH =>
    rw [Call.counts_of_dir (c := .preadv fd vec vlen posL posH) rfl]
    exact countsUpTo_sysPreadvPwritev K .read rw s fd vec vlen posL posH
  | pwritev fd vec vlen posL posH =>
    rw [Call.counts_of_dir (c := .pwritev fd vec vlen posL posH) rfl]
    exact countsUpTo_sysPreadvPwritev K .write rw s fd vec vlen posL posH
  | sendfile outFd inFd offset count => exact countsUpTo_sysSendfileWith _ K s outFd inFd offset count rw
  | sendfile64 outFd inFd offset count =>
    exact countsUpTo_sysSendfileWith _ K s outFd inFd offset count rw

/-- Over any run, `syscr` (`syscw`) never decreases, and grows by at most the number of the run's
calls that read (write) or are `sendfile`; the seeks never count. -/
theorem run_countsUpTo (K : Kernel W) (s : Sys W) (cs : List Call) (rw : Rw) :
    s.CountsUpTo (run K s cs) rw (cs.countP (Call.counts rw)) := by
  induction cs generalizing s with
  | nil => exact .of_acct rfl
  | cons c cs ih =>
    rw [run_cons, List.countP_cons, Nat.add_comm]
    exact (step_countsUpTo K s c rw).trans (ih _)

/-! ### Vectors of no segment -/

theorem Sys.setPos_self (s : Sys W) (id : Nat) : s.setPos id (s.files id).pos = s :=
  Sys.setFile_self s id

/-- `readv(fd, vec, 0)` on a descriptor open for reading, whose file has a `read` or `aio_read`
method, returns 0 and moves nothing, yet raises `fsnotify_access` and counts in `syscr`;
`writev(fd, vec, 0)` returns 0 and only counts in `syscw`. -/
theorem sysReadvWritev_zero (K : Kernel W) (rw : Rw) (s : Sys W) (fd : Nat) (vec : Int) {id : Nat}
    (hid : s.fget fd = some id) (hmode : hasFlag (s.files id).mode rw.modeBit = true) {fn : IoFn W}
    (hfn : (s.files id).ops.bind rw.ioMethod = some fn) :
    sysReadvWritev K rw s fd vec 0 =
      (0, (if rw = .read then s.notify (rw.note id) else s).incCalls rw) := by
  obtain ⟨ops, hops, -⟩ := Option.bind_eq_some.mp hfn
  unfold sysReadvWritev vfsReadvWritev doReadvWritev readvWritevBody rwCopyCheckUvector
  rw [hid]
  dsimp only
  rw [if_neg (by rw [hmode]; decide), hfn, Option.isNone_some, if_neg Bool.false_ne_true, hops]
  dsimp only
  rw [if_pos rfl]
  dsimp only
  rw [if_pos (Int.le_refl 0)]
  cases rw <;>
    simp only [eq_self_iff_true, reduceCtorEq, if_true, if_false, Int.add_zero, Int.reduceAdd,
      Int.reduceLT, Sys.setPos_self, vectorAccounted, Int.lt_irrefl]
  -- a read: the event leaves the position where it was
  exact congrArg (fun t => ((0 : Int), t.incCalls .read)) (Sys.setPos_self (s.notify _) id)

theorem sysReadvWritev_zero_quiet :
    Sys.quiet.fget 3 = some 0 ∧ hasFlag (Sys.quiet.files 0).mode Rw.read.modeBit = true ∧
      (Sys.quiet.files 0).ops.bind Rw.read.ioMethod = some fullTransfer ∧
      sysReadvWritev Kernel.quiet .read Sys.quiet 3 0 0 =
        (0, (if Rw.read = .read then Sys.quiet.notify (Rw.read.note 0) else Sys.quiet).incCalls .read) :=
  have hid : Sys.quiet.fget 3 = some 0 := rfl
  have hmode : hasFlag (Sys.quiet.files 0).mode Rw.read.modeBit = true := rfl
  have hfn : (Sys.quiet.files 0).ops.bind Rw.read.ioMethod = some fullTransfer := rfl
  ⟨hid, hmode, hfn, sysReadvWritev_zero Kernel.quiet .read Sys.quiet 3 0 hid hmode hfn⟩

/-! ### `fsnotify` events -/

/-- `t` holds the events of `s` followed by at most `k` more. -/
def Sys.AppendsNotes (s t : Sys W) (k : Nat) : Prop :=
  ∃ ns, t.notes = s.notes ++ ns ∧ ns.length ≤ k

namespace Sys

theorem AppendsNotes.of_notes {s t : Sys W} {k : Nat} (h : t.notes = s.notes) : s.AppendsNotes t k :=
  ⟨[], by rw [h, List.append_nil], Nat.zero_le k⟩

theorem AppendsNotes.notify (s : Sys W) (n : Note) : s.AppendsNotes (s.notify n) 1 :=
  ⟨[n], rfl, Nat.le_refl 1⟩

theorem AppendsNotes.of_notes_eq {s t t' : Sys W} {k : Nat} (h : s.AppendsNotes t k)
    (ht : t'.notes = t.notes) : s.AppendsNotes t' k := by
  obtain ⟨ns, hn, hk⟩ := h
  exact ⟨ns, ht.trans hn, hk⟩

theorem AppendsNotes.trans {s t u : Sys W} {k l : Nat} (h : s.AppendsNotes t k)
    (h' : t.AppendsNotes u l) : s.AppendsNotes u (k + l) := by
  obtain ⟨ns, hn, hk⟩ := h
  obtain ⟨ns', hn', hl⟩ := h'
  refine ⟨ns ++ ns', by rw [hn', hn, List.append_assoc], ?_⟩
  rw [List.length_append]
  omega

@[simp] theorem notes_setFile (s : Sys W) (id : Nat) (f : OpenFile W) :
    (s.setFile id f).notes = s.notes := rfl
@[simp] theorem notes_setPos (s : Sys W) (id : Nat) (p : Int) : (s.setPos id p).notes = s.notes := rfl
@[simp] theorem notes_setWorld (s : Sys W) (w : W) : (s.setWorld w).notes = s.notes := rfl
@[simp] theorem notes_addRchar (s : Sys W) (n : Int) : (s.addRchar n).notes = s.notes := rfl
@[simp] theorem notes_addWchar (s : Sys W) (n : Int) : (s.addWchar n).notes = s.notes := rfl
@[simp] theorem notes_incSyscr (s : Sys W) : s.incSyscr.notes = s.notes := rfl
@[simp] theorem notes_incSyscw (s : Sys W) : s.incSyscw.notes = s.notes := rfl

@[simp] theorem notes_addChars (rw : Rw) (s : Sys W) (n : Int) : (s.addChars rw n).notes = s.notes := by
  cases rw <;> rfl

@[simp] theorem notes_incCalls (rw : Rw) (s : Sys W) : (s.incCalls rw).notes = s.notes := by
  cases rw <;> rfl

end Sys

private theorem notes_sysLseek (K : Kernel W) (s : Sys W) (fd : Nat) (offset : Int) (origin : Nat) :
    (sysLseek K s fd offset origin).2.notes = s.notes := by
  rcases sysLseek_cases K s fd offset origin with ⟨e, -, h⟩ | ⟨id, -, -, h⟩ <;>
    simp only [h, Sys.notes_setFile]

private theorem notes_sysLlseek (K : Kernel W) (s : Sys W) (fd : Nat) (high low : UInt64) (result : Int)
    (origin : Nat) : (sysLlseek K s fd high low result origin).2.notes = s.notes := by
  rcases sysLlseek_cases K s fd high low result origin with h | ⟨id, w, -, h⟩ <;>
    simp only [h, Sys.notes_setWorld, Sys.notes_setFile]

private theorem appendsNotes_transferAccounted (rw : Rw) (fn : IoFn W) (s : Sys W) (id : Nat) (buf : Int)
    (count : UInt64) (pos : Int) : s.AppendsNotes (transferAccounted rw fn s id buf count pos).2.2 1 := by
  unfold transferAccounted
  dsimp only
  split_ifs
  · exact ⟨[rw.note id], by cases rw <;> rfl, Nat.le_refl 1⟩
  · exact .of_notes (by simp only [Sys.notes_incCalls, Sys.notes_setWorld])

theorem appendsNotes_vfsReadWrite (K : Kernel W) (rw : Rw) (s : Sys W) (id : Nat) (buf : Int)
    (count : UInt64) (pos : Int) : s.AppendsNotes (vfsReadWrite K rw s id buf count pos).2.2 1 := by
  rcases vfsReadWrite_cases K rw s id buf count pos with ⟨e, -, h⟩ | ⟨fn, -, -, h⟩ <;> rw [h]
  · exact .of_notes rfl
  · exact appendsNotes_transferAccounted rw fn s id buf _ pos

theorem appendsNotes_vfsReadvWritev (K : Kernel W) (rw : Rw) (s : Sys W) (id : Nat) (vec : Int)
    (vlen : Nat) (pos : Int) : s.AppendsNotes (vfsReadvWritev K rw s id vec vlen pos).2.2 1 := by
  -- the body changes the world at most, and `out` adds at most one event
  have hbody : (readvWritevBody K rw s id vec vlen pos).2.2.notes = s.notes := by
    rcases readvWritevBody_cases K rw s id vec vlen pos with ⟨e, -, h⟩ | ⟨_, _, _, _, _, _, h⟩ <;>
      simp only [h, Sys.notes_setWorld]
  obtain ⟨s', h, hs'⟩ := doReadvWritev_eq K rw s id vec vlen pos
  unfold vfsReadvWritev
  dsimp only
  split_ifs
  · exact .of_notes rfl
  · exact .of_notes rfl
  · rw [h]
    rcases hs' with rfl | rfl
    · exact .of_notes hbody
    · exact ⟨[rw.note id], by rw [Sys.notify, hbody], Nat.le_refl 1⟩

private theorem notes_spliceAccounted (K : Kernel W) (s : Sys W) (i o : Nat) (ppos : Option Int) (pos : Int)
    (count : UInt64) (max : Int) : (spliceAccounted K s i o ppos pos count max).2.2.notes = s.notes := by
  unfold spliceAccounted
  dsimp only
  cases ppos <;> split_ifs <;> rfl

theorem notes_sysSendfileWith (max : Int) (K : Kernel W) (s : Sys W) (outFd inFd : Nat)
    (offset : Option Int) (count : UInt64) :
    (sysSendfileWith max K s outFd inFd offset count).2.notes = s.notes := by
  have hdo : ∀ ppos m, (doSendfile K s outFd inFd ppos count m).2.2.notes = s.notes := fun ppos m => by
    rcases doSendfile_cases K s outFd inFd ppos count m with ⟨e, -, h⟩ | ⟨i, o, c, -, -, -, -, -, h⟩ <;>
      simp only [h]
    exact notes_spliceAccounted K s i o ppos _ c _
  rcases sysSendfileWith_cases max K s outFd inFd offset count with h | ⟨ppos, m, w, h⟩ <;> rw [h]
  exact hdo ppos m

theorem appendsNotes_sysReadWrite (K : Kernel W) (rw : Rw) (s : Sys W) (fd : Nat) (buf : Int)
    (count : UInt64) : s.AppendsNotes (sysReadWrite K rw s fd buf count).2 1 := by
  unfold sysReadWrite
  split
  · exact .of_notes rfl
  · exact appendsNotes_vfsReadWrite K rw s _ buf count _

theorem appendsNotes_sysPreadPwrite (K : Kernel W) (rw : Rw) (s : Sys W) (fd : Nat) (buf : Int)
    (count : UInt64) (pos : Int) : s.AppendsNotes (sysPreadPwrite K rw s fd buf count pos).2 1 := by
  unfold sysPreadPwrite
  split_ifs
  · exact .of_notes rfl
  · split
    · exact .of_notes rfl
    · split_ifs
      · exact .of_notes rfl
      · exact appendsNotes_vfsReadWrite K rw s _ buf count pos

theorem notes_vectorAccounted (rw : Rw) (r : Int × Sys W) : (vectorAccounted rw r).2.notes = r.2.notes := by
  unfold vectorAccounted
  split_ifs <;> simp only [Sys.notes_incCalls, Sys.notes_addChars]

theorem appendsNotes_sysReadvWritev (K : Kernel W) (rw : Rw) (s : Sys W) (fd : Nat) (vec : Int)
    (vlen : Nat) : s.AppendsNotes (sysReadvWritev K rw s fd vec vlen).2 1 := by
  unfold sysReadvWritev
  refine .of_notes_eq ?_ (notes_vectorAccounted rw _)
  split
  · exact .of_notes rfl
  · exact appendsNotes_vfsReadvWritev K rw s _ vec vlen _

theorem appendsNotes_sysPreadvPwritev (K : Kernel W) (rw : Rw) (s : Sys W) (fd : Nat) (vec : Int)
    (vlen : Nat) (posL posH : UInt64) :
    s.AppendsNotes (sysPreadvPwritev K rw s fd vec vlen posL posH).2 1 := by
  rw [sysPreadvPwritev]
  split_ifs
  · exact .of_notes rfl
  · refine .of_notes_eq ?_ (notes_vectorAccounted rw _)
    split
    · exact .of_notes rfl
    · split_ifs
      · exact .of_notes rfl
      · exact appendsNotes_vfsReadvWritev K rw s _ vec vlen _

/-- One call adds at most one event, and only if it transfers in one direction. -/
private theorem step_appendsNotes (K : Kernel W) (s : Sys W) (c : Call) :
    s.AppendsNotes (step K s c).2 (if c.dir.isSome then 1 else 0) := by
  cases c with
  | lseek fd offset origin => exact .of_notes (notes_sysLseek K s fd _ origin)
  | llseek fd high low result origin => exact .of_notes (notes_sysLlseek K s fd high low result origin)
  | read fd buf count => exact appendsNotes_sysReadWrite K .read s fd buf count
  | write fd buf count => exact appendsNotes_sysReadWrite K .write s fd buf count
  | pread64 fd buf count pos => exact appendsNotes_sysPreadPwrite K .read s fd buf count _
  | pwrite64 fd buf count pos => exact appendsNotes_sysPreadPwrite K .write s fd buf count _
  | readv fd vec vlen => exact appendsNotes_sysReadvWritev K .read s fd vec vlen
  | writev fd vec vlen => exact appendsNotes_sysReadvWritev K .write s fd vec vlen
  | preadv fd vec vlen posL posH => exact appendsNotes_sysPreadvPwritev K .read s fd vec vlen posL posH
  | pwritev fd vec vlen posL posH =>
    exact appendsNotes_sysPreadvPwritev K .write s fd vec vlen posL posH
  | sendfile outFd inFd offset count =>
    exact .of_notes (notes_sysSendfileWith _ K s outFd inFd offset count)
  | sendfile64 outFd inFd offset count =>
    exact .of_notes (notes_sysSendfileWith _ K s outFd inFd offset count)

/-- The `fsnotify` events are only ever appended: a run keeps those raised before it, and adds at
most one for each of its calls that transfers in one direction, none for the seeks and `sendfile`. -/
theorem run_appendsNotes (K : Kernel W) (s : Sys W) (cs : List Call) :
    s.AppendsNotes (run K s cs) (cs.countP fun c => c.dir.isSome) := by
  induction cs generalizing s with
  | nil => exact .of_notes rfl
  | cons c cs ih =>
    rw [run_cons, List.countP_cons, Nat.add_comm]
    exact (step_appendsNotes K s c).trans (ih _)

end SearchSyscall
