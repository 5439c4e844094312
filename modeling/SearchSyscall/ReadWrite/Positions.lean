import SearchSyscall.ReadWrite.Syscalls

/-!
# File positions over every run

`rw_verify_area` refuses a transfer whose bytes would leave the `loff_t` range, the `llseek` methods
refuse to seek below 0, and `do_sendfile` cuts its count at `max`.  Together they keep every file
position a non-negative `loff_t`, as long as the filesystem keeps its side: its methods move the
position forward by at most the bytes they are asked for.

* `FileWf f`: `f` has signed offsets, such methods, and a position in `[0, 2^63)`; `Sys.Wf s` says
  it of every open file of the process.
* One lemma per system call says that it only moves positions, and only into `[0, 2^63)`
  (`Sys.MovesWithin`); `step_moves` gathers them.
* `run_positions`: from a process whose open files are all well formed, every sequence of system
  calls leaves every position in `[0, 2^63)`.
-/

namespace SearchSyscall

variable {W : Type}

/-- An open file with signed offsets, methods that move the position forward by at most the bytes
they are asked for, and a position in `[0, 2^63)`. -/
structure FileWf (f : OpenFile W) : Prop where
  signed : unsignedOffsets f = false
  advances : ∀ ops, f.ops = some ops → ops.Advances
  pos_nonneg : 0 ≤ f.pos
  pos_lt : f.pos < 2 ^ 63

/-- Every open file of the process is well formed. -/
def Sys.Wf (s : Sys W) : Prop := ∀ j, FileWf (s.files j)

theorem Sys.Wf.movesWithin {s s' : Sys W} (h : s.Wf) (hm : s.MovesWithin s') : s'.Wf := by
  intro j
  rcases hm j with h' | ⟨p, v, hp, hp', h'⟩ <;> rw [h']
  · exact h j
  · exact ⟨(h j).signed, (h j).advances, hp, hp'⟩

section Step

variable (K : Kernel W) {s : Sys W} (hs : s.Wf)
include hs

/-- The state a seek leaves: the file moved by the `llseek` method, to a position in range. -/
theorem movesWithin_vfsLlseek (id : Nat) {offset : Int} (hoff : InLoff offset) (origin : Nat) :
    s.MovesWithin (s.setFile id (vfsLlseek K s.world (s.files id) offset origin).2) := by
  rcases (vfsLlseek_seeks K s.world (s.files id) hoff origin).pos_range (hs id).signed
    ⟨(hs id).pos_nonneg, (hs id).pos_lt⟩ with ⟨-, he⟩ | ⟨h0, h1, he⟩
  · exact Sys.movesWithin_setFile s id (.inl he)
  · rw [he]
    rcases OpenFile.seekTo_eq (s.files id) _ with he' | he'
    · exact Sys.movesWithin_setFile s id (.inl he')
    · exact Sys.movesWithin_setFile s id (.inr ⟨_, 0, h0, h1, he'⟩)

private theorem sysLseek_moves (fd : Nat) {offset : Int} (hoff : InLoff offset) (origin : Nat) :
    s.MovesWithin (sysLseek K s fd offset origin).2 := by
  unfold sysLseek
  split
  · exact .refl s
  · next id _ =>
    split_ifs
    · exact movesWithin_vfsLlseek K hs id hoff origin
    · exact .refl s

private theorem sysLlseek_moves (fd : Nat) (high low : UInt64) (result : Int) (origin : Nat) :
    s.MovesWithin (sysLlseek K s fd high low result origin).2 := by
  rcases sysLlseek_cases K s fd high low result origin with h | ⟨id, w, -, h⟩ <;> rw [h]
  · exact .refl s
  · exact (movesWithin_vfsLlseek K hs id (inLoff_toLoff _) origin).trans (.of_files_eq rfl)

theorem sysReadWrite_moves (rw : Rw) (fd : Nat) (buf : Int) (count : UInt64) :
    s.MovesWithin (sysReadWrite K rw s fd buf count).2 := by
  unfold sysReadWrite
  split
  · exact .refl s
  · next id _ =>
    exact (Sys.MovesWithin.of_files_eq (files_vfsReadWrite K rw s id buf count _)).trans
      (Sys.movesWithin_setPos _ id (vfsReadWrite_pos K rw s id (hs id).signed (hs id).advances
        ⟨(hs id).pos_nonneg, (hs id).pos_lt⟩ buf count))

theorem sysReadvWritev_moves (rw : Rw) (fd : Nat) (vec : Int) (vlen : Nat) :
    s.MovesWithin (sysReadvWritev K rw s fd vec vlen).2 := by
  unfold sysReadvWritev
  refine Sys.MovesWithin.trans ?_ (.of_files_eq (files_vectorAccounted rw _))
  split
  · exact .refl s
  · next id _ =>
    exact (Sys.MovesWithin.of_files_eq (files_vfsReadvWritev K rw s id vec vlen _)).trans
      (Sys.movesWithin_setPos _ id (vfsReadvWritev_pos K rw s id (hs id).signed (hs id).advances
        ⟨(hs id).pos_nonneg, (hs id).pos_lt⟩ vec vlen))

end Step

/-- Each system call only moves file positions, and only into `[0, 2^63)`. -/
theorem step_moves (K : Kernel W) (hK : K.SpliceAdvances) {s : Sys W} (hs : s.Wf) (c : Call) :
    s.MovesWithin (step K s c).2 := by
  have hs' : ∀ j, unsignedOffsets (s.files j) = false := fun j => (hs j).signed
  have hpos : ∀ j, 0 ≤ (s.files j).pos ∧ (s.files j).pos < 2 ^ 63 :=
    fun j => ⟨(hs j).pos_nonneg, (hs j).pos_lt⟩
  cases c with
  | lseek fd offset origin => exact sysLseek_moves K hs fd offset.inLoff origin
  | llseek fd high low result origin => exact sysLlseek_moves K hs fd high low result origin
  | read fd buf count => exact sysReadWrite_moves K hs .read fd buf count
  | write fd buf count => exact sysReadWrite_moves K hs .write fd buf count
  | pread64 fd buf count pos => exact (Sys.MovesWithin.of_files_eq (files_sysPreadPwrite K .read s fd buf count pos.val) :)
  | pwrite64 fd buf count pos => exact (Sys.MovesWithin.of_files_eq (files_sysPreadPwrite K .write s fd buf count pos.val) :)
  | readv fd vec vlen => exact sysReadvWritev_moves K hs .read fd vec vlen
  | writev fd vec vlen => exact sysReadvWritev_moves K hs .write fd vec vlen
  | preadv fd vec vlen posL posH =>
    exact (Sys.MovesWithin.of_files_eq (files_sysPreadvPwritev K .read s fd vec vlen posL posH) :)
  | pwritev fd vec vlen posL posH =>
    exact (Sys.MovesWithin.of_files_eq (files_sysPreadvPwritev K .write s fd vec vlen posL posH) :)
  | sendfile outFd inFd offset count =>
    exact sysSendfileWith_moves hK hs' hpos (.inr (by unfold InLoff maxNonLfs; omega)) outFd inFd
      offset count
  | sendfile64 outFd inFd offset count =>
    exact sysSendfileWith_moves hK hs' hpos (.inl rfl) outFd inFd offset count

theorem run_wf (K : Kernel W) (hK : K.SpliceAdvances) :
    ∀ {s : Sys W} (cs : List Call), s.Wf → (run K s cs).Wf
  | _, [], hs => hs
  | _, c :: cs, hs => run_wf K hK cs (hs.movesWithin (step_moves K hK hs c))

/-- Every sequence of system calls, from a process whose open files have signed offsets, positions
in `[0, 2^63)` and methods that move them by at most the bytes they are asked for, and with a
`do_splice_direct` that does the same, leaves every file position in `[0, 2^63)`. -/
theorem run_positions (K : Kernel W) (hK : K.SpliceAdvances) {s : Sys W} (hs : s.Wf)
    (cs : List Call) (j : Nat) : 0 ≤ ((run K s cs).files j).pos ∧ ((run K s cs).files j).pos < 2 ^ 63 :=
  ⟨(run_wf K hK cs hs j).pos_nonneg, (run_wf K hK cs hs j).pos_lt⟩

theorem fullTransfer_advances : IoFn.Advances fullTransfer :=
  fun _ _ count pos => ⟨by dsimp only [fullTransfer]; omega, by dsimp only [fullTransfer]; omega⟩

theorem quiet_spliceAdvances : Kernel.quiet.SpliceAdvances :=
  fun _ _ pos _ opos len => ⟨⟨Int.le_refl pos, by dsimp only [Kernel.quiet]; omega⟩,
    ⟨Int.le_refl opos, by dsimp only [Kernel.quiet]; omega⟩⟩

theorem OpenFile.quiet_wf : FileWf OpenFile.quiet where
  signed := rfl
  advances ops h := by
    cases h
    exact
      { read := fun _ h => Option.some_inj.mp h ▸ fullTransfer_advances
        write := fun _ h => Option.some_inj.mp h ▸ fullTransfer_advances
        aioRead := fun _ h => nomatch h
        aioWrite := fun _ h => nomatch h }
  pos_nonneg := Int.le_refl 0
  pos_lt := by decide

theorem Sys.quiet_wf : Sys.quiet.Wf := fun _ => OpenFile.quiet_wf

theorem run_positions_quiet :
    Kernel.quiet.SpliceAdvances ∧ Sys.quiet.Wf ∧
      (0 ≤ ((run Kernel.quiet Sys.quiet
          [.read 3 0 4096, .lseek 3 ⟨-4, by unfold InLoff; omega⟩ seekCur, .sendfile 3 3 none 10]).files 0).pos ∧
        ((run Kernel.quiet Sys.quiet
          [.read 3 0 4096, .lseek 3 ⟨-4, by unfold InLoff; omega⟩ seekCur, .sendfile 3 3 none 10]).files 0).pos <
          2 ^ 63) :=
  ⟨quiet_spliceAdvances, Sys.quiet_wf, run_positions Kernel.quiet quiet_spliceAdvances Sys.quiet_wf _ 0⟩

end SearchSyscall
